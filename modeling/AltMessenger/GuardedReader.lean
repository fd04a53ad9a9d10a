import AltMessenger.Bip37

/-!
A reader of partial trees to which a missing node is zero, so that a right child which is zero is
taken for its left sibling. Where two children are the same it gives up: nothing more is read, and
the node is zero as well. What such a reader comes to and what it reports may come apart.
-/
namespace GuardedReader
open MerkleTree Bip37

variable {H : Type}

/-- A leaf is hashed with siblings, so many levels up, to the root. -/
inductive Branch (combine : H → H → H) : Nat → H → H → Prop where
  | leaf {x : H} : Branch combine 0 x x
  | left {h : Nat} {x l : H} (r : H) : Branch combine h x l →
      Branch combine (h + 1) x (combine l r)
  | right {h : Nat} {x r : H} (l : H) : Branch combine h x r →
      Branch combine (h + 1) x (combine l r)

/-- The leaves whose flag is set, read without the guard -/
def report : Nat → List Bool → List H → List H × List Bool × List H
  | 0, flag :: bits, hash :: hashes => (if flag then [hash] else [],bits,hashes)
  | _ + 1, false :: bits, _ :: hashes => ([],bits,hashes)
  | h + 1, true :: bits, hash :: hashes =>
    let (found,bits,hashes) := report h bits (hash :: hashes)
    let (more,bits,hashes) := report h bits hashes
    (found ++ more,bits,hashes)
  | _, bits, hashes => ([],bits,hashes)

section Reports
variable {h : Nat} {bits : List Bool} {hashes : List H}

theorem report_dry (dry : bits = [] ∨ hashes = []) :
    report h bits hashes = ([],bits,hashes) := by
  unfold report
  rcases dry with rfl | rfl
  · cases h <;> rfl
  · cases h <;> rcases bits with - | ⟨_ | _,_⟩ <;> rfl

theorem report_open (some_hash : hashes ≠ []) :
    report (h + 1) (true :: bits) hashes =
      let (found,bits,hashes) := report h bits hashes
      let (more,bits,hashes) := report h bits hashes
      (found ++ more,bits,hashes) := by
  obtain ⟨hash,rest,rfl⟩ := List.exists_cons_of_ne_nil some_hash
  rfl

end Reports

section Levels
variable {zero : H} {combine : H → H → H}

/-- On no level below the root are there two nodes that are the same, or one that is zero. -/
def Distinct (zero : H) (combine : H → H → H) (leaves : List H) : Prop :=
  ∀ h < treeHeight leaves.length, (level combine h leaves).Nodup ∧ zero ∉ level combine h leaves

theorem Distinct.apart {leaves : List H} (distinct : Distinct zero combine leaves) {h p q : Nat}
    (below : h < treeHeight leaves.length) {left right : H}
    (first : (level combine h leaves)[p]? = some left)
    (second : (level combine h leaves)[q]? = some right) (differ : p ≠ q) : left ≠ right := by
  rintro rfl
  obtain ⟨inside,here⟩ := List.getElem?_eq_some_iff.mp first
  obtain ⟨inside',there⟩ := List.getElem?_eq_some_iff.mp second
  exact differ ((List.getElem_inj (distinct h below).1).mp (here.trans there.symm))

theorem Distinct.some_node {leaves : List H} (distinct : Distinct zero combine leaves) {h p : Nat}
    (below : h < treeHeight leaves.length) {node : H}
    (there : (level combine h leaves)[p]? = some node) : node ≠ zero := by
  rintro rfl
  exact (distinct h below).2 (List.mem_of_getElem? there)

/-- No more hashes are built than there are leaves. -/
theorem built_few (combine : H → H → H) (txs : List (H × Bool)) (h p : Nat) :
    (traverseAndBuild combine txs h p).2.length ≤ 2 ^ h := by
  induction h generalizing p with
  | zero =>
    rw [traverseAndBuild, Option.length_toList]
    split <;> decide
  | succ h ih =>
    have first := ih (2 * p)
    have second := ih (2 * p + 1)
    rw [traverseAndBuild, Nat.pow_succ]
    split
    · split
      · rw [List.length_append]
        omega
      · dsimp only
        omega
    · rw [Option.length_toList]
      have one := Nat.one_le_two_pow (n := h)
      split <;> omega

end Levels

variable [DecidableEq H]

section Reading
variable (zero : H) (combine : H → H → H)

/-- No hashes are left to read, not even an empty list of them, once the reader has given up. -/
def crawl : Nat → List Bool → Option (List H) → H × List Bool × Option (List H)
  | 0, _ :: bits, some (hash :: hashes) => (hash,bits,some hashes)
  | _ + 1, false :: bits, some (hash :: hashes) => (hash,bits,some hashes)
  | h + 1, true :: bits, some (hash :: hashes) =>
    let (left,bits,hashes) := crawl h bits (some (hash :: hashes))
    let (right,bits,hashes) := crawl h bits hashes
    if left ≠ zero ∧ left ≠ right then
      (combine left (if right = zero then left else right),bits,hashes)
    else (zero,bits,none)
  | _, bits, hashes => (zero,bits,hashes)

end Reading

section Steps
variable {zero : H} {combine : H → H → H} {h : Nat} {bits : List Bool} {hashes : List H}

theorem crawl_dry (bits : List Bool) {hashes : Option (List H)}
    (dry : bits = [] ∨ hashes = none ∨ hashes = some []) :
    crawl zero combine h bits hashes = (zero,bits,hashes) := by
  unfold crawl
  rcases dry with rfl | rfl | rfl
  · cases h <;> rfl
  · cases h <;> rcases bits with - | ⟨_ | _,_⟩ <;> rfl
  · cases h <;> rcases bits with - | ⟨_ | _,_⟩ <;> rfl

theorem crawl_open (some_hash : hashes ≠ []) :
    crawl zero combine (h + 1) (true :: bits) (some hashes) =
      let (left,bits,hashes) := crawl zero combine h bits (some hashes)
      let (right,bits,hashes) := crawl zero combine h bits hashes
      if left ≠ zero ∧ left ≠ right then
        (combine left (if right = zero then left else right),bits,hashes)
      else (zero,bits,none) := by
  obtain ⟨hash,rest,rfl⟩ := List.exists_cons_of_ne_nil some_hash
  rfl

end Steps

section Soundness
variable {zero : H} {combine : H → H → H}

/-- Where the reader has not given up, and nothing that is read or hashed is zero, it has read as
    far as the report, and what this reports is hashed to the node. -/
theorem report_branches (hashed : ∀ l r, combine l r ≠ zero) {h : Nat} {bits bits' : List Bool}
    {hashes hashes' : List H} {md : H} (read : zero ∉ hashes)
    (run : crawl zero combine h bits (some hashes) = (md,bits',some hashes')) :
    ∃ found, report h bits hashes = (found,bits',hashes') ∧
      (∀ x ∈ found, Branch combine h x md) ∧ (md = zero → found = []) ∧
      ∀ x ∈ hashes', x ∈ hashes := by
  induction h generalizing bits bits' hashes hashes' md with
  | zero =>
    rcases bits with - | ⟨flag,bits⟩
    · rw [crawl_dry [] (.inl rfl)] at run
      cases run
      exact ⟨[],report_dry (.inl rfl),nofun,fun _ => rfl,fun _ there => there⟩
    rcases hashes with - | ⟨hash,hashes⟩
    · rw [crawl_dry _ (.inr (.inr rfl))] at run
      cases run
      exact ⟨[],report_dry (.inr rfl),nofun,fun _ => rfl,nofun⟩
    cases run
    refine ⟨_,rfl,?_,?_,fun x there => List.mem_cons_of_mem _ there⟩
    · intro x there
      split at there
      · cases List.mem_singleton.mp there
        exact .leaf
      · cases there
    · intro none_read
      exact absurd (none_read ▸ List.mem_cons_self) read
  | succ h ih =>
    rcases bits with - | ⟨flag,bits⟩
    · rw [crawl_dry [] (.inl rfl)] at run
      cases run
      exact ⟨[],report_dry (.inl rfl),nofun,fun _ => rfl,fun _ there => there⟩
    rcases hashes with - | ⟨hash,hashes⟩
    · rw [crawl_dry _ (.inr (.inr rfl))] at run
      cases run
      exact ⟨[],report_dry (.inr rfl),nofun,fun _ => rfl,nofun⟩
    cases flag with
    | false =>
      cases run
      exact ⟨[],rfl,nofun,fun _ => rfl,fun x there => List.mem_cons_of_mem _ there⟩
    | true =>
      rw [crawl_open (List.cons_ne_nil _ _)] at run
      rcases first : crawl zero combine h bits (some (hash :: hashes)) with ⟨left,mid,more⟩
      rw [first] at run
      dsimp only at run
      rcases second : crawl zero combine h mid more with ⟨right,last,spare⟩
      rw [second] at run
      dsimp only at run
      split at run
      case isFalse => cases run
      case isTrue apart =>
        cases run
        cases more with
        | none =>
          rw [crawl_dry _ (.inr (.inl rfl))] at second
          cases second
        | some more =>
          obtain ⟨found,here,left_branches,-,inside⟩ := ih read first
          obtain ⟨found',there,right_branches,missing,inside'⟩ :=
            ih (fun zeros => read (inside zero zeros)) second
          refine ⟨found ++ found',?_,?_,fun none_read => absurd none_read (hashed _ _),
            fun x last => inside x (inside' x last)⟩
          · rw [report_open (List.cons_ne_nil _ _), here]
            dsimp only
            rw [there]
          · intro x reported
            rcases List.mem_append.mp reported with one | other
            · exact .left _ (left_branches x one)
            · by_cases dry : right = zero
              · rw [missing dry] at other
                cases other
              · rw [if_neg dry]
                exact .right _ (right_branches x other)

end Soundness

section Honesty
variable {zero : H} {combine : H → H → H}

/-- What is built for a block is read as its node, and reports what is matched. Behind the last node
    of a level nothing may be left to read. -/
theorem built_read (txs : List (H × Bool)) (distinct : Distinct zero combine (txs.map Prod.fst))
    {h p : Nat} (inside : h ≤ treeHeight txs.length) (real : p < width txs.length h) :
    ∃ node, calcHash combine txs h p = some node ∧ (traverseAndBuild combine txs h p).2 ≠ [] ∧
      ∀ rest spare, (p + 1 < width txs.length h ∨ rest = [] ∨ spare = []) →
        crawl zero combine h ((traverseAndBuild combine txs h p).1 ++ rest)
            (some ((traverseAndBuild combine txs h p).2 ++ spare)) = (node,rest,some spare) ∧
        report h ((traverseAndBuild combine txs h p).1 ++ rest)
            ((traverseAndBuild combine txs h p).2 ++ spare) =
          (matchedIn (span txs h p),rest,spare) := by
  induction h generalizing p with
  | zero =>
    obtain ⟨node,found⟩ := calcHash_some combine real
    rw [width_zero] at real
    have leaf := span_leaf real
    have here : txs[p].1 = node := by
      rw [calcHash, level, List.getElem?_map, List.getElem?_eq_getElem real] at found
      exact Option.some.inj found
    refine ⟨node,found,?_,fun rest spare _ => ?_⟩
    · rw [traverseAndBuild, found]
      exact List.cons_ne_nil _ _
    · rw [traverseAndBuild, found, parentOfMatch, leaf]
      refine ⟨rfl,?_⟩
      cases flag : txs[p].2 <;> simp [report, matchedIn, flag, here]
  | succ h ih =>
    obtain ⟨node,found⟩ := calcHash_some combine real
    have under : h < treeHeight (txs.map Prod.fst).length := by
      rw [List.length_map]
      exact inside
    by_cases parent : parentOfMatch txs (h + 1) p = true
    · obtain ⟨left,first,some_hash,reads⟩ := ih (Nat.le_of_succ_le inside) (below real)
      by_cases two : 2 * p + 1 < width txs.length h
      · obtain ⟨right,second,-,reads'⟩ := ih (Nat.le_of_succ_le inside) two
        have rightmost : rightOf txs.length h p = 2 * p + 1 := if_pos two
        have whole := calcHash_succ real first (by rw [rightmost, second])
        have apart := distinct.apart under first second (by omega)
        have some_left := distinct.some_node under first
        have some_right := distinct.some_node under second
        rw [traverseAndBuild, if_pos parent, if_pos two]
        refine ⟨_,whole,?_,fun rest spare last => ?_⟩
        · exact fun none => some_hash (List.append_eq_nil_iff.mp none).1
        · obtain ⟨crawled,reported⟩ := reads
            ((traverseAndBuild combine txs h (2 * p + 1)).1 ++ rest)
            ((traverseAndBuild combine txs h (2 * p + 1)).2 ++ spare) (.inl two)
          obtain ⟨crawled',reported'⟩ := reads' rest spare (last.imp_left fun next => by
            rw [width_succ] at next
            omega)
          have some_more : (traverseAndBuild combine txs h (2 * p)).2 ++
              ((traverseAndBuild combine txs h (2 * p + 1)).2 ++ spare) ≠ [] :=
            fun none => some_hash (List.append_eq_nil_iff.mp none).1
          rw [List.cons_append, List.append_assoc, List.append_assoc, crawl_open some_more,
            report_open some_more, crawled, reported]
          dsimp only
          rw [crawled', reported']
          dsimp only
          rw [if_pos ⟨some_left,apart⟩, if_neg some_right, span_split]
          refine ⟨rfl,?_⟩
          rw [matchedIn, matchedIn, matchedIn, List.filter_append, List.map_append]
      · have rightmost : rightOf txs.length h p = 2 * p := if_neg two
        have whole := calcHash_succ real first (by rw [rightmost, first])
        have some_left := distinct.some_node under first
        rw [traverseAndBuild, if_pos parent, if_neg two]
        refine ⟨_,whole,some_hash,fun rest spare last => ?_⟩
        have dry := last.resolve_left fun next => by
          rw [width_succ] at next
          omega
        obtain ⟨crawled,reported⟩ := reads rest spare (.inr dry)
        have some_more : (traverseAndBuild combine txs h (2 * p)).2 ++ spare ≠ [] :=
          fun none => some_hash (List.append_eq_nil_iff.mp none).1
        rw [List.cons_append, crawl_open some_more, report_open some_more, crawled, reported]
        dsimp only
        rw [crawl_dry rest (dry.imp_right fun none => .inr (congrArg some none)), report_dry dry]
        dsimp only
        rw [if_pos ⟨some_left,some_left⟩, if_pos rfl, List.append_nil, span_split,
          span_past two, List.append_nil]
        exact ⟨rfl,rfl⟩
    · have none_matched : matchedIn (span txs (h + 1) p) = [] := by
        have unmatched : ∀ tx ∈ span txs (h + 1) p, ¬ tx.2 = true := by
          simpa [parentOfMatch] using parent
        rw [matchedIn, List.filter_eq_nil_iff.mpr unmatched, List.map_nil]
      rw [traverseAndBuild, if_neg parent, found]
      refine ⟨node,rfl,List.cons_ne_nil _ _,fun rest spare _ => ?_⟩
      rw [none_matched]
      exact ⟨rfl,rfl⟩

end Honesty

section Forging
variable {zero : H} {combine : H → H → H}

/-- Below a node that is opened all the way down to two leaves which are the same, the reader gives
    up, and the report has both. -/
theorem twins_read (x : H) (h : Nat) (rest : List Bool) :
    crawl zero combine (h + 1) (List.replicate (h + 3) true ++ rest) (some [x, x]) =
        (zero,rest,none) ∧
      report (h + 1) (List.replicate (h + 3) true ++ rest) [x, x] = ([x, x],rest,[]) := by
  induction h with
  | zero =>
    refine ⟨?_,rfl⟩
    change (if x ≠ zero ∧ x ≠ x then _ else _) = _
    exact if_neg fun differ => differ.2 rfl
  | succ h ih =>
    obtain ⟨crawled,reported⟩ := ih
    rw [List.replicate_succ, List.cons_append, crawl_open (List.cons_ne_nil _ _),
      report_open (List.cons_ne_nil _ _), crawled, reported]
    dsimp only
    rw [crawl_dry rest (.inr (.inl rfl)), report_dry (.inr rfl)]
    exact ⟨if_neg fun differ => differ.1 rfl,rfl⟩

/-- Where some level above the leaves has an odd number of nodes, the last node of that level can be
    given a right sibling with any two leaves that are the same below it. -/
theorem forged_read {leaves : List H} (distinct : Distinct zero combine leaves) (x : H)
    {h p k : Nat} (inside : h ≤ treeHeight leaves.length) (last : p + 1 = width leaves.length h)
    (above : 1 ≤ k) (under : k < h) (odd : width leaves.length k % 2 = 1) :
    ∃ node bits hashes, (level combine h leaves)[p]? = some node ∧ hashes ≠ [] ∧
      hashes.length ≤ h + 2 ∧
      ∀ rest, crawl zero combine h (bits ++ rest) (some hashes) = (node,rest,none) ∧
        report h (bits ++ rest) hashes = ([x, x],rest,[]) := by
  induction h generalizing p with
  | zero => omega
  | succ h ih =>
    have there : p < (level combine (h + 1) leaves).length := by
      rw [level_length]
      omega
    have found := List.getElem?_eq_getElem there
    obtain ⟨left,right,first,second,-,whole⟩ := level_succ found
    have some_left := distinct.some_node inside first
    rw [found, whole]
    obtain ⟨under_one,rfl⟩ | ⟨h,rfl⟩ : h = 0 ∧ h = 0 ∨ ∃ below, h = below + 1 := by
      cases h with
      | zero => exact .inl ⟨rfl,rfl⟩
      | succ below => exact .inr ⟨below,rfl⟩
    · omega
    by_cases here : width leaves.length (h + 1) % 2 = 1
    · have missing : rightOf leaves.length (h + 1) p = 2 * p := by
        rw [width_succ] at last
        exact if_neg (by omega)
      rw [missing, first] at second
      cases second
      refine ⟨_,true :: false :: List.replicate (h + 3) true,[left, x, x],rfl,
        List.cons_ne_nil _ _,Nat.le_add_left 3 (h + 1),fun rest => ?_⟩
      obtain ⟨crawled,reported⟩ := @twins_read H _ zero combine x h rest
      rw [List.cons_append, crawl_open (List.cons_ne_nil _ _), report_open (List.cons_ne_nil _ _)]
      change (let (right,bits,hashes) := crawl zero combine (h + 1) (List.replicate (h + 3) true ++
          rest) (some [x, x]); if left ≠ zero ∧ left ≠ right then
            (combine left (if right = zero then left else right),bits,hashes)
          else (zero,bits,none)) = _ ∧
        (let (more,bits,hashes) := report (h + 1) (List.replicate (h + 3) true ++ rest) [x, x]
         ([] ++ more,bits,hashes)) = _
      rw [crawled, reported]
      dsimp only
      rw [if_pos ⟨some_left,some_left⟩, if_pos rfl]
      exact ⟨rfl,rfl⟩
    · have lower : k < h + 1 := by
        refine Nat.lt_of_le_of_ne (Nat.le_of_lt_succ under) ?_
        rintro rfl
        exact here odd
      have two : 2 * p + 1 < width leaves.length (h + 1) := by
        rw [width_succ] at last
        omega
      have rightmost : rightOf leaves.length (h + 1) p = 2 * p + 1 := if_pos two
      obtain ⟨node,bits,hashes,there,some_hash,few,reads⟩ :=
        @ih (2 * p + 1) (Nat.le_of_succ_le inside) (by
          rw [width_succ] at last
          omega) lower
      rw [rightmost, there] at second
      cases second
      have apart := distinct.apart inside first there (by omega)
      have some_right := distinct.some_node inside there
      refine ⟨_,true :: false :: bits,left :: hashes,rfl,List.cons_ne_nil _ _,
        Nat.succ_le_succ few,fun rest => ?_⟩
      obtain ⟨crawled,reported⟩ := reads rest
      rw [List.cons_append, crawl_open (List.cons_ne_nil _ _), report_open (List.cons_ne_nil _ _)]
      change (let (right,bits,hashes) := crawl zero combine (h + 1) (bits ++ rest) (some hashes)
          if left ≠ zero ∧ left ≠ right then
            (combine left (if right = zero then left else right),bits,hashes)
          else (zero,bits,none)) = _ ∧
        (let (more,bits,hashes) := report (h + 1) (bits ++ rest) hashes
         ([] ++ more,bits,hashes)) = _
      rw [crawled, reported]
      dsimp only
      rw [if_pos ⟨some_left,apart⟩, if_neg some_right]
      exact ⟨rfl,rfl⟩

end Forging

end GuardedReader
