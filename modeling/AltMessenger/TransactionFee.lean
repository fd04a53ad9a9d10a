import AltMessenger.WalletOrder

/-!
The fee of a stored transaction: what its inputs spend less what its outputs
pay, as far as the transactions its inputs refer to are stored.
-/
namespace TransactionFee
open SwiftRuntime WalletStore WalletOrder

/-- The loop over the inputs: `nil` at the first one whose transaction is not stored. -/
def inputValue (transactions : List TransactionInfo) :
    Int64 → List TransactionInputInfo → Except Trap (Option Int64)
  | value, [] => .ok (some value)
  | value, input :: inputs =>
    match fetch transactions input.outPoint.txHash with
    | none => .ok none
    | some place => do
      let outpointTx ← subscript transactions place
      let spentOutput ← subscript outpointTx.outputs input.outPoint.index
      let value ← addInt64 value spentOutput.value
      inputValue transactions value inputs

/-- `tx.fee` -/
def fee (transactions : List TransactionInfo) (tx : TransactionInfo) :
    Except Trap (Option Int64) := do
  let spent ← inputValue transactions 0 tx.inputs
  match spent with
  | none => pure none
  | some inputValue => do
    let outputValue ← sumFrom 0 (tx.outputs.map (·.value))
    let difference ← subInt64 inputValue outputValue
    pure (some difference)

/-- The stored transaction an input refers to. -/
def funding (infos : List TransactionInfo) (input : TransactionInputInfo) :
    Option TransactionInfo :=
  infos.find? fun info => info.txHash == input.outPoint.txHash

def spentValue (infos : List TransactionInfo) (input : TransactionInputInfo) : Option Int := do
  let source ← funding infos input
  let output ← source.outputs[input.outPoint.index]?
  pure output.value.toInt

/-- Up to the first input whose transaction is not stored, each refers to an
    output that exists, and the totals on the way are values of `Int64`. -/
def InputsFit (infos : List TransactionInfo) : Int → List TransactionInputInfo → Prop
  | _, [] => True
  | total, input :: inputs => ∀ source, funding infos input = some source →
    ∃ output, source.outputs[input.outPoint.index]? = some output ∧
      (-2 ^ 63 ≤ total + output.value.toInt ∧ total + output.value.toInt < 2 ^ 63) ∧
        InputsFit infos (total + output.value.toInt) inputs

/-- So are the totals of the outputs and the difference, where there is one. -/
def FeeFits (infos : List TransactionInfo) (info : TransactionInfo) : Prop :=
  InputsFit infos 0 info.inputs ∧
    ∀ spent, info.inputs.mapM (spentValue infos) = some spent →
      RunningSumsFit 0 (info.outputs.map (·.value.toInt)) ∧
        -2 ^ 63 ≤ spent.sum - (info.outputs.map (·.value.toInt)).sum ∧
          spent.sum - (info.outputs.map (·.value.toInt)).sum < 2 ^ 63

def inputsFit (infos : List TransactionInfo) :
    (total : Int) → (inputs : List TransactionInputInfo) → Decidable (InputsFit infos total inputs)
  | _, [] => .isTrue trivial
  | total, input :: inputs =>
    match funded : funding infos input with
    | none => .isTrue fun source same => by cases funded.symm.trans same
    | some source =>
      match slot : source.outputs[input.outPoint.index]? with
      | none => .isFalse fun fits => by
        obtain ⟨output,there,_⟩ := fits source funded
        cases slot.symm.trans there
      | some output =>
        have := inputsFit infos (total + output.value.toInt) inputs
        decidable_of_iff
          ((-2 ^ 63 ≤ total + output.value.toInt ∧ total + output.value.toInt < 2 ^ 63) ∧
            InputsFit infos (total + output.value.toInt) inputs)
          ⟨fun fits source' same => by
            cases funded.symm.trans same
            exact ⟨output,slot,fits⟩,
          fun fits => by
            obtain ⟨output',there,fits⟩ := fits source funded
            cases slot.symm.trans there
            exact fits⟩

instance (infos : List TransactionInfo) (total : Int) (inputs : List TransactionInputInfo) :
    Decidable (InputsFit infos total inputs) := inputsFit infos total inputs

instance (infos : List TransactionInfo) (info : TransactionInfo) :
    Decidable (FeeFits infos info) :=
  inferInstanceAs (Decidable (_ ∧ ∀ spent ∈ info.inputs.mapM (spentValue infos), _))

theorem fetch_funding (infos : List TransactionInfo) (input : TransactionInputInfo) :
    (fetch infos input.outPoint.txHash).bind (infos[·]?) = funding infos input := by
  rw [fetch, funding]
  induction infos with
  | nil => rfl
  | cons info infos ih =>
    rw [List.findIdx?_cons, List.find?_cons]
    cases info.txHash == input.outPoint.txHash with
    | true => rfl
    | false =>
      rw [← ih]
      cases infos.findIdx? fun info => info.txHash == input.outPoint.txHash <;> rfl

theorem fetch_missing {infos : List TransactionInfo} {input : TransactionInputInfo}
    (missing : fetch infos input.outPoint.txHash = none) : funding infos input = none := by
  rw [← fetch_funding, missing]
  rfl

theorem fetch_found {infos : List TransactionInfo} {input : TransactionInputInfo} {place : Nat}
    (found : fetch infos input.outPoint.txHash = some place) :
    ∃ source, infos[place]? = some source ∧ funding infos input = some source := by
  obtain ⟨source,there,_⟩ := fetch_some found
  refine ⟨source,there,?_⟩
  rw [← fetch_funding, found]
  exact there

theorem inputValue_ok {infos : List TransactionInfo} {value : Int64} {input : TransactionInputInfo}
    {inputs : List TransactionInputInfo} {source : TransactionInfo}
    (funded : funding infos input = some source) {out : Option Int64} :
    inputValue infos value (input :: inputs) = .ok out ↔
      ∃ output total, source.outputs[input.outPoint.index]? = some output ∧
        total.toInt = value.toInt + output.value.toInt ∧
          inputValue infos total inputs = .ok out := by
  rw [inputValue]
  cases look : fetch infos input.outPoint.txHash with
  | none => cases funded.symm.trans (fetch_missing look)
  | some place =>
    obtain ⟨source',there,same⟩ := fetch_found look
    cases funded.symm.trans same
    dsimp only
    rw [bind_ready (subscript_ok.mpr there)]
    constructor
    · intro run
      obtain ⟨output,slot,run⟩ := bind_ran.mp run
      obtain ⟨total,sum,rest⟩ := bind_ran.mp run
      exact ⟨output,total,subscript_ok.mp slot,addInt64_ok.mp sum,rest⟩
    · rintro ⟨output,total,slot,sum,rest⟩
      rw [bind_ready (subscript_ok.mpr slot), bind_ready (addInt64_ok.mpr sum)]
      exact rest

theorem inputValue_missing {infos : List TransactionInfo} {value : Int64}
    {input : TransactionInputInfo} {inputs : List TransactionInputInfo}
    (unfunded : funding infos input = none) :
    inputValue infos value (input :: inputs) = .ok none := by
  rw [inputValue]
  cases look : fetch infos input.outPoint.txHash with
  | none => rfl
  | some place =>
    obtain ⟨source,_,same⟩ := fetch_found look
    cases unfunded.symm.trans same

theorem spentValue_at {infos : List TransactionInfo} {input : TransactionInputInfo}
    {source : TransactionInfo} (funded : funding infos input = some source)
    {output : TransactionOutputInfo} (slot : source.outputs[input.outPoint.index]? = some output) :
    spentValue infos input = some output.value.toInt := by
  rw [spentValue, funded]
  change (source.outputs[input.outPoint.index]?).bind _ = _
  rw [slot]
  rfl

/-- The loop returns exactly when the inputs fit, and then it has their total. -/
theorem inputValue_iff {infos : List TransactionInfo} {inputs : List TransactionInputInfo}
    {value : Int64} {out : Option Int64} :
    inputValue infos value inputs = .ok out ↔ InputsFit infos value.toInt inputs ∧
      out.map Int64.toInt =
        (inputs.mapM (spentValue infos)).map fun spent => value.toInt + spent.sum := by
  induction inputs generalizing value with
  | nil =>
    change Except.ok (some value) = Except.ok out ↔ True ∧ _
    rw [true_and, Except.ok.injEq]
    constructor
    · rintro rfl
      simp
    · intro same
      cases out with
      | none => simp at same
      | some total =>
        have equal : total.toInt = value.toInt := by simpa using same
        rw [Int64.toInt_inj.mp equal]
  | cons input inputs ih =>
    rw [InputsFit, List.mapM_cons]
    cases funded : funding infos input with
    | none =>
      have nothing : spentValue infos input = none := by
        rw [spentValue, funded]
        rfl
      rw [inputValue_missing funded, nothing]
      cases out <;> simp
    | some source =>
      rw [inputValue_ok funded]
      constructor
      · rintro ⟨output,total,slot,sum,rest⟩
        obtain ⟨fits,same⟩ := ih.mp rest
        rw [sum] at fits same
        refine ⟨?_,?_⟩
        · rintro source' ⟨⟩
          have low := total.le_toInt
          have high := total.toInt_lt
          rw [sum] at low high
          exact ⟨output,slot,⟨low,high⟩,fits⟩
        · rw [same, spentValue_at funded slot]
          cases inputs.mapM (spentValue infos) with
          | none => rfl
          | some spent => simp [Int.add_assoc]
      · rintro ⟨fits,same⟩
        obtain ⟨output,slot,⟨low,high⟩,rest⟩ := fits source rfl
        have sum := addInt64_ok.mp (addInt64_fits low high)
        refine ⟨output,_,slot,sum,ih.mpr ?_⟩
        rw [sum]
        refine ⟨rest,?_⟩
        rw [same, spentValue_at funded slot]
        cases inputs.mapM (spentValue infos) with
        | none => rfl
        | some spent => simp [Int.add_assoc]

/-- Where every funding transaction is stored, the totals are those of what is spent. -/
theorem inputsFit_running {infos : List TransactionInfo} {inputs : List TransactionInputInfo}
    {total : Int} (fits : InputsFit infos total inputs) {spent : List Int}
    (read : inputs.mapM (spentValue infos) = some spent) : RunningSumsFit total spent := by
  induction inputs generalizing total spent with
  | nil =>
    cases read
    trivial
  | cons input inputs ih =>
    rw [List.mapM_cons] at read
    obtain ⟨value,first,read⟩ := Option.bind_eq_some_iff.mp read
    obtain ⟨rest,later,read⟩ := Option.bind_eq_some_iff.mp read
    cases read
    obtain ⟨source,funded,_⟩ := Option.bind_eq_some_iff.mp first
    obtain ⟨output,slot,range,fits⟩ := fits source funded
    cases first.symm.trans (spentValue_at funded slot)
    exact ⟨range,ih fits later⟩

theorem sum_fits (start : Int64) {values : List Int64} :
    (∃ total, sumFrom start values = .ok total) ↔
      RunningSumsFit start.toInt (values.map Int64.toInt) := by
  constructor
  · rintro ⟨total,run⟩
    exact (sumFrom_ok.mp run).1
  · intro fits
    have range := runningSums_total fits start.le_toInt start.toInt_lt
    exact ⟨Int64.ofInt _,sumFrom_ok.mpr ⟨fits,Int64.toInt_ofInt_of_le range.1 range.2⟩⟩

/-- The fee is `nil` or the full difference, and it is computed exactly when its sums fit. -/
theorem fee_iff {infos : List TransactionInfo} {info : TransactionInfo} {out : Option Int64} :
    fee infos info = .ok out ↔ FeeFits infos info ∧
      out.map Int64.toInt = (info.inputs.mapM (spentValue infos)).map fun spent =>
        spent.sum - (info.outputs.map (·.value.toInt)).sum := by
  have values : (info.outputs.map (·.value)).map Int64.toInt =
      info.outputs.map (·.value.toInt) := by
    rw [List.map_map]
    rfl
  rw [fee, FeeFits]
  constructor
  · intro run
    obtain ⟨spent,first,run⟩ := bind_ran.mp run
    obtain ⟨fits,total⟩ := inputValue_iff.mp first
    rw [Int64.toInt_zero] at fits total
    simp only [Int.zero_add] at total
    cases read : info.inputs.mapM (spentValue infos) with
    | none =>
      rw [read] at total
      have nothing : spent = none := by simpa using total
      subst nothing
      cases run
      exact ⟨⟨fits,by simp⟩,rfl⟩
    | some list =>
      rw [read] at total
      obtain ⟨inputTotal,rfl,inputs⟩ := Option.map_eq_some_iff.mp total
      obtain ⟨outputTotal,sum,run⟩ := bind_ran.mp run
      obtain ⟨difference,sub,run⟩ := bind_ran.mp run
      cases run
      obtain ⟨running,outputs⟩ := sumFrom_ok.mp sum
      rw [values, Int64.toInt_zero] at running outputs
      rw [Int.zero_add] at outputs
      have exactly := subInt64_ok.mp sub
      rw [inputs, outputs] at exactly
      have low := difference.le_toInt
      have high := difference.toInt_lt
      rw [exactly] at low high
      refine ⟨⟨fits,?_⟩,congrArg some exactly⟩
      rintro other ⟨⟩
      exact ⟨running,low,high⟩
  · rintro ⟨⟨fits,rest⟩,same⟩
    cases read : info.inputs.mapM (spentValue infos) with
    | none =>
      rw [read] at same
      have nothing : out = none := by simpa using same
      subst nothing
      have first : inputValue infos 0 info.inputs = .ok none :=
        inputValue_iff.mpr ⟨fits,by rw [read]; rfl⟩
      rw [bind_ready first]
      rfl
    | some list =>
      rw [read] at same
      obtain ⟨difference,rfl,exactly⟩ := Option.map_eq_some_iff.mp same
      obtain ⟨running,_,_⟩ := rest list read
      have range := runningSums_total (inputsFit_running fits read) (by decide) (by decide)
      have inputTotal := Int64.toInt_ofInt_of_le range.1 range.2
      have first : inputValue infos 0 info.inputs = .ok (some (Int64.ofInt (0 + list.sum))) := by
        refine inputValue_iff.mpr ⟨fits,?_⟩
        rw [read, Option.map_some, Option.map_some, inputTotal, Int64.toInt_zero]
      obtain ⟨outputTotal,sum⟩ := (sum_fits 0).mpr (values.symm ▸ running)
      have outputs := (sumFrom_ok.mp sum).2
      rw [values, Int64.toInt_zero, Int.zero_add] at outputs
      have sub : subInt64 (Int64.ofInt (0 + list.sum)) outputTotal = .ok difference := by
        rw [subInt64_ok, inputTotal, outputs, Int.zero_add]
        exact exactly
      rw [bind_ready first]
      dsimp only
      rw [bind_ready sum, bind_ready sub]
      rfl

theorem fee_fits {infos : List TransactionInfo} {info : TransactionInfo} :
    (∃ out, fee infos info = .ok out) ↔ FeeFits infos info := by
  constructor
  · rintro ⟨out,run⟩
    exact (fee_iff.mp run).1
  · intro fits
    cases read : info.inputs.mapM (spentValue infos) with
    | none => exact ⟨none,fee_iff.mpr ⟨fits,by rw [read]; rfl⟩⟩
    | some spent =>
      obtain ⟨_,low,high⟩ := fits.2 spent read
      have whole := Int64.toInt_ofInt_of_le low high
      exact ⟨some _,fee_iff.mpr ⟨fits,by rw [read, Option.map_some, Option.map_some, whole]⟩⟩

/-- The marks of the outputs do not enter a fee. -/
theorem inputValue_flagged {spent : List Char → Nat → Bool} {infos : List TransactionInfo}
    (value : Int64) (inputs : List TransactionInputInfo) :
    inputValue (flagged spent infos) value inputs = inputValue infos value inputs := by
  induction inputs generalizing value with
  | nil => rfl
  | cons input inputs ih =>
    rw [inputValue, inputValue, fetch_flagged]
    cases look : fetch infos input.outPoint.txHash with
    | none => rfl
    | some place =>
      obtain ⟨source,there,_⟩ := fetch_some look
      have there' : (flagged spent infos)[place]? = some (flagInfo spent source) := by
        rw [flagged_at, there]
        rfl
      dsimp only
      rw [bind_ready (subscript_ok.mpr there), bind_ready (subscript_ok.mpr there')]
      rw [flagInfo, subscript, subscript, List.getElem?_mapIdx]
      cases source.outputs[input.outPoint.index]? with
      | none => rfl
      | some output =>
        simp only [Option.map_some]
        rw [bind_ready rfl, bind_ready rfl]
        simp only [ih]

theorem fee_flagged {spent : List Char → Nat → Bool} {infos : List TransactionInfo}
    (info : TransactionInfo) :
    fee (flagged spent infos) (flagInfo spent info) = fee infos info := by
  have values : (flagInfo spent info).outputs.map (·.value) = info.outputs.map (·.value) := by
    apply List.ext_getElem?
    intro i
    simp only [flagInfo, List.getElem?_map, List.getElem?_mapIdx]
    cases info.outputs[i]? <;> rfl
  rw [fee, fee, inputValue_flagged, values]
  rfl

end TransactionFee
