import AltMessenger.HTTPRequest

/-!
The body of a request, call after call. A call of `recv` that brings fewer bytes than the buffer
holds is taken for the last one, and only that is remembered as the end of the body.
-/
namespace RequestBodies
open HTTPRequest SwiftRuntime

/-- A request with its socket: how often `recv` was called, and what is kept of the body. -/
structure State where
  socket : Socket
  calls : Nat
  _body : Option (List UInt8)
  _bodyRead : Bool
  deriving DecidableEq, Repr

def opened (socket : Socket) : State := ⟨socket,0,none,false⟩

/-- The loop of `body`, which adds up in `total` how many bytes there are; `arrived` says how many
    each call of `recv` finds. -/
def receive (arrived : Nat → Nat) (contentLength : Int) :
    Nat → List UInt8 → State → Except Stop (List UInt8 × State)
  | 0, body, s => .ok (body, s)
  | fuel + 1, body, s =>
    let (n, buf, socket) := recv s.socket 4096 (arrived s.calls)
    let s := { s with
      socket
      calls := s.calls + 1
      _bodyRead := s._bodyRead || n < 4096 }
    -- the slice up to a negative number
    if n < 0 then .error (.trap .index)
    else
      let body := body ++ buf
      if s._bodyRead || body.length ≥ contentLength then .ok (body, s)
      else receive arrived contentLength fuel body s

/-- `Data(bytesNoCopy:count:)`: as many bytes as were announced, from where the body is kept. -/
def data (r : Request) (bytes : List UInt8) : Except Stop (List UInt8) :=
  if r.contentLength ≤ bytes.length then .ok (bytes.take r.contentLength.toNat)
  else .error .pastTheEnd

def body (r : Request) (arrived : Nat → Nat) (s : State) :
    Except Stop (Option (List UInt8) × State) :=
  match s._bodyRead, s._body with
  | true, some bytes => do .ok (some (← data r bytes), s)
  | true, none => .ok (none, s)
  | false, _ =>
    if r.contentLength > 0 then do
      let (bytes, s) ← receive arrived r.contentLength (s.socket.bytes.length + 1) [] s
      .ok (some (← data r bytes), { s with _body := some bytes })
    else .ok (none, s)

/-- The first call gives the body that was sent, the second one the same, and what is behind it
    stays to be received. -/
def ReadsWhole (r : Request) (arrived : Nat → Nat) (socket : Socket) : Prop :=
  ∃ first second, body r arrived (opened socket) = .ok (r.sentBody socket, first) ∧
    body r arrived first = .ok (r.sentBody socket, second) ∧
    first.socket.bytes = socket.bytes.drop r.contentLength.toNat ∧
    second.socket.bytes = socket.bytes.drop r.contentLength.toNat

/-- Of `total` bytes the first `length` come in full buffers and a shorter rest, and with the rest
    comes nothing that is behind it. -/
def InBuffers (arrived : Nat → Nat) (total length : Nat) : Prop :=
  length % 4096 ≠ 0 ∧ (∀ call < length / 4096, 4096 ≤ arrived call) ∧
    min (max 1 (arrived (length / 4096))) (total - 4096 * (length / 4096)) = length % 4096

instance (arrived : Nat → Nat) (total length : Nat) : Decidable (InBuffers arrived total length) :=
  inferInstanceAs (Decidable (_ ∧ _ ∧ _))

section Buffers
variable {arrived : Nat → Nat} {total length : Nat}

theorem buffers_last (last : length < 4096) (some_left : 0 < length) :
    InBuffers arrived total length ↔ min (max 1 (arrived 0)) total = length := by
  have quotient : length / 4096 = 0 := Nat.div_eq_of_lt last
  have remainder : length % 4096 = length := Nat.mod_eq_of_lt last
  unfold InBuffers
  rw [quotient, remainder, Nat.mul_zero, Nat.sub_zero]
  constructor
  · exact fun ⟨_,_,same⟩ => same
  · exact fun same => ⟨by omega,fun call before => absurd before (Nat.not_lt_zero _),same⟩

theorem buffers_step (full : 4096 ≤ length) : InBuffers arrived total length ↔
    4096 ≤ arrived 0 ∧
      InBuffers (fun call => arrived (call + 1)) (total - 4096) (length - 4096) := by
  have quotient : length / 4096 = (length - 4096) / 4096 + 1 := by omega
  have remainder : length % 4096 = (length - 4096) % 4096 := by omega
  have rest : total - 4096 * ((length - 4096) / 4096 + 1) =
      total - 4096 - 4096 * ((length - 4096) / 4096) := by omega
  unfold InBuffers
  rw [quotient, remainder, rest]
  constructor
  · rintro ⟨uneven,each,same⟩
    exact ⟨each 0 (by omega),uneven,fun call before => each (call + 1) (by omega),same⟩
  · rintro ⟨first,uneven,each,same⟩
    refine ⟨uneven,?_,same⟩
    intro call before
    cases call with
    | zero => exact first
    | succ call => exact each call (by omega)

end Buffers

section Loop
variable {arrived : Nat → Nat} {contentLength : Int} {fuel : Nat} {front whole : List UInt8}
  {s t : State}

theorem recv_cons (b : UInt8) (bytes : List UInt8) (failed : Bool) (size most : Nat) :
    recv ⟨b :: bytes,failed⟩ size most =
      ((((b :: bytes).take (min size (max 1 most))).length : Int),
        (b :: bytes).take (min size (max 1 most)),
        { bytes := (b :: bytes).drop (min size (max 1 most)), failed }) := rfl

/-- One call of `recv` where something is left. -/
theorem receive_cons (b : UInt8) (bytes : List UInt8) (failed : Bool) (calls : Nat)
    (kept : Option (List UInt8)) :
    receive arrived contentLength (fuel + 1) front ⟨⟨b :: bytes,failed⟩,calls,kept,false⟩ =
      let piece := (b :: bytes).take (min 4096 (max 1 (arrived calls)))
      let rest : Socket := ⟨(b :: bytes).drop (min 4096 (max 1 (arrived calls))),failed⟩
      if piece.length < 4096 ∨ contentLength ≤ front.length + piece.length then
        .ok (front ++ piece, ⟨rest,calls + 1,kept,decide (piece.length < 4096)⟩)
      else receive arrived contentLength fuel (front ++ piece) ⟨rest,calls + 1,kept,false⟩ := by
  rw [receive, recv_cons]
  generalize (b :: bytes).take (min 4096 (max 1 (arrived calls))) = piece
  generalize (b :: bytes).drop (min 4096 (max 1 (arrived calls))) = unread
  have fewer : decide ((piece.length : Int) < 4096) = decide (piece.length < 4096) :=
    decide_eq_decide.mpr Nat.cast_lt_ofNat
  dsimp only
  rw [if_neg (by omega), fewer, Bool.false_or, List.length_append, Nat.cast_add]
  by_cases short : piece.length < 4096
  · rw [decide_eq_true short, Bool.true_or, if_pos rfl, if_pos (Or.inl short)]
  · rw [decide_eq_false short, Bool.false_or]
    simp only [decide_eq_true_eq, ge_iff_le, short, false_or]

/-- What is received is what was to be received, in order. -/
theorem receive_kept (ran : receive arrived contentLength fuel front s = .ok (whole, t)) :
    whole ++ t.socket.bytes = front ++ s.socket.bytes := by
  induction fuel generalizing front s with
  | zero =>
    cases ran
    rfl
  | succ fuel ih =>
    obtain ⟨⟨bytes,failed⟩,calls,kept,ended⟩ := s
    unfold receive recv at ran
    cases bytes with
    | nil =>
      cases failed with
      | true => cases ran
      | false =>
        simp only [Bool.false_eq_true, if_false] at ran
        split at ran
        · cases ran
        · split at ran
          · cases ran
            rw [List.append_nil]
          · rw [ih ran, List.append_nil]
    | cons b bytes =>
      dsimp only at ran
      split at ran
      · cases ran
      · split at ran
        · cases ran
          rw [List.append_assoc, List.take_append_drop]
        · rw [ih ran, List.append_assoc, List.take_append_drop]

/-- A call that ends the loop gives so many bytes and knows that they are all exactly if it brought
    them and filled no buffer. -/
theorem stopped_iff {piece : List UInt8} {rest : Socket} {calls length : Nat}
    {kept : Option (List UInt8)} :
    (∃ whole t, (.ok (front ++ piece, ⟨rest,calls,kept,decide (piece.length < 4096)⟩) :
        Except Stop (List UInt8 × State)) = .ok (whole, t) ∧
        whole.length = front.length + length ∧ t._bodyRead = true) ↔
      piece.length = length ∧ piece.length < 4096 := by
  constructor
  · rintro ⟨whole,t,ran,exact_length,knows⟩
    cases ran
    rw [List.length_append] at exact_length
    exact ⟨Nat.add_left_cancel exact_length,of_decide_eq_true knows⟩
  · rintro ⟨same,short⟩
    refine ⟨_,_,rfl,?_,decide_eq_true short⟩
    rw [List.length_append, same]

/-- The loop ends with so many bytes, and knows that they are all, exactly if these come in full
    buffers and a shorter rest. -/
theorem receive_iff (arrived : Nat → Nat) (front : List UInt8) (s : State) {length : Nat}
    (enough : s.socket.bytes.length < fuel) (reading : s._bodyRead = false)
    (some_left : 0 < length) (sent : length ≤ s.socket.bytes.length) :
    (∃ whole t, receive arrived (front.length + length : Nat) fuel front s = .ok (whole, t) ∧
        whole.length = front.length + length ∧ t._bodyRead = true) ↔
      InBuffers (fun call => arrived (s.calls + call)) s.socket.bytes.length length := by
  induction fuel generalizing front s length with
  | zero => exact absurd enough (Nat.not_lt_zero _)
  | succ fuel ih =>
    obtain ⟨⟨bytes,failed⟩,calls,kept,ended⟩ := s
    dsimp only at enough reading sent ⊢
    subst reading
    cases bytes with
    | nil =>
      rw [List.length_nil] at sent
      omega
    | cons b bytes =>
      rw [receive_cons]
      dsimp only
      generalize size : min 4096 (max 1 (arrived calls)) = most
      generalize (b :: bytes) = unread at enough sent ⊢
      have taken : (unread.take most).length = min most unread.length := List.length_take
      by_cases last : length < 4096
      · -- the call is the last one, and brings the rest or something else
        rw [if_pos (by omega), buffers_last last some_left, stopped_iff]
        simp only [Nat.add_zero]
        omega
      · rw [buffers_step (by omega)]
        simp only [Nat.add_zero]
        by_cases short : (unread.take most).length < 4096
        · -- a short call in the middle ends the body
          rw [if_pos (Or.inl short), stopped_iff]
          exact iff_of_false (by omega) (by omega)
        · have full : most = 4096 := by omega
          by_cases even : length = 4096
          · -- the last buffer is full, so that nothing says that the body has ended
            rw [if_pos (by omega), even, stopped_iff]
            exact iff_of_false (fun both => short both.2) fun met => met.2.1 rfl
          · rw [if_neg (by omega)]
            have announced : front.length + length =
                (front ++ unread.take most).length + (length - 4096) := by
              rw [List.length_append, taken]
              omega
            have fewer : (unread.drop most).length < fuel := by
              rw [List.length_drop]
              omega
            have still : length - 4096 ≤ (unread.drop most).length := by
              rw [List.length_drop]
              omega
            have step := ih (front ++ unread.take most)
              ⟨⟨unread.drop most,failed⟩,calls + 1,kept,false⟩ fewer rfl (by omega) still
            have shift : (fun call => arrived (calls + 1 + call)) =
                fun call => arrived (calls + (call + 1)) :=
              funext fun call => congrArg arrived (Nat.add_right_comm calls 1 call)
            rw [announced, step]
            dsimp only
            rw [List.length_drop, full, shift]
            exact (and_iff_right (by omega)).symm

end Loop

section Calls
variable {r : Request} {arrived : Nat → Nat} {s t : State} {whole bytes : List UInt8}
  {answer : Option (List UInt8)} {socket : Socket}

theorem data_iff : data r whole = .ok bytes ↔
    r.contentLength ≤ whole.length ∧ whole.take r.contentLength.toNat = bytes := by
  unfold data
  split
  case isTrue long => exact ⟨fun same => ⟨long,Except.ok.inj same⟩,fun both => congrArg _ both.2⟩
  case isFalse short => exact iff_of_false (fun same => nomatch same) fun both => short both.1

/-- Without an announced body nothing is read. -/
theorem body_empty (none_sent : r.contentLength ≤ 0) (socket : Socket) :
    body r arrived (opened socket) = .ok (none, opened socket) := by
  unfold body opened
  exact if_neg (by omega)

/-- Until the end is known each call reads from the socket. -/
theorem body_reads (reading : s._bodyRead = false) (some_sent : 0 < r.contentLength) :
    body r arrived s = .ok (answer, t) ↔ ∃ whole bytes u,
      receive arrived r.contentLength (s.socket.bytes.length + 1) [] s = .ok (whole, u) ∧
        data r whole = .ok bytes ∧ some bytes = answer ∧ { u with _body := some whole } = t := by
  unfold body
  rw [reading]
  dsimp only
  rw [if_pos some_sent]
  constructor
  · intro ran
    obtain ⟨⟨whole,u⟩,received,ran⟩ := bind_ran.mp ran
    obtain ⟨bytes,given,ran⟩ := bind_ran.mp ran
    cases ran
    exact ⟨whole,bytes,u,received,given,rfl,rfl⟩
  · rintro ⟨whole,bytes,u,received,given,rfl,rfl⟩
    rw [bind_ready received, bind_ready given]

/-- Afterwards the body is there, and nothing is read. -/
theorem body_again (knows : s._bodyRead = true) (kept : s._body = some whole)
    (given : data r whole = .ok bytes) : body r arrived s = .ok (some bytes, s) := by
  unfold body
  rw [knows, kept]
  dsimp only
  rw [bind_ready given]

/-- What was read has the announced length where the right rest is left. -/
theorem whole_length {rest : List UInt8} (length : Nat) (split : whole ++ rest = bytes)
    (left : rest = bytes.drop length) (sent : length ≤ bytes.length) : whole.length = length := by
  have lengths := congrArg List.length split
  rw [left, List.length_append, List.length_drop] at lengths
  omega

/-- Of a body that was sent, `body` gives the announced bytes, leaves what is behind them and gives
    the same again exactly if they come in full buffers and a shorter rest. -/
theorem reads_whole_iff (r : Request) (arrived : Nat → Nat) (socket : Socket)
    (sent : r.contentLength ≤ socket.bytes.length) :
    ReadsWhole r arrived socket ↔
      r.contentLength ≤ 0 ∨ InBuffers arrived socket.bytes.length r.contentLength.toNat := by
  unfold ReadsWhole Request.sentBody
  by_cases some_sent : 0 < r.contentLength
  · have fits : r.contentLength.toNat ≤ socket.bytes.length := by omega
    have some_left : 0 < r.contentLength.toNat := by omega
    have reading := receive_iff arrived [] (opened socket) (Nat.lt_succ_self _) rfl some_left fits
    have announced : ((([] : List UInt8).length + r.contentLength.toNat : Nat) : Int) =
        r.contentLength := by
      rw [List.length_nil, Nat.zero_add, Int.toNat_of_nonneg (le_of_lt some_sent)]
    rw [announced, List.length_nil, Nat.zero_add] at reading
    have in_order : (fun call => arrived ((opened socket).calls + call)) = arrived :=
      funext fun call => congrArg arrived (Nat.zero_add call)
    rw [in_order] at reading
    rw [or_iff_right (by omega), if_pos some_sent]
    refine Iff.trans ?_ reading
    constructor
    · rintro ⟨first,second,ran,again,left,after⟩
      obtain ⟨whole,bytes,t,received,given,-,rfl⟩ := (body_reads rfl some_sent).mp ran
      have whole_first := receive_kept received
      refine ⟨whole,t,received,whole_length _ whole_first left fits,?_⟩
      by_contra knows
      -- the second call would read on, and nothing may be missing of what is behind
      obtain ⟨more,_,u,received',given',-,rfl⟩ :=
        (body_reads (s := { t with _body := some whole }) (Bool.eq_false_iff.mpr knows)
          some_sent).mp again
      have whole_second := receive_kept received'
      dsimp only at left after whole_second
      rw [left, after] at whole_second
      have nothing := whole_length 0 whole_second rfl (Nat.zero_le _)
      have long := (data_iff.mp given').1
      omega
    · rintro ⟨whole,t,received,exact_length,knows⟩
      have split := receive_kept received
      have given : data r whole = .ok (socket.bytes.take r.contentLength.toNat) := by
        refine data_iff.mpr ⟨by omega,?_⟩
        rw [show socket.bytes = whole ++ t.socket.bytes from split.symm,
          List.take_append_of_le_length (by omega)]
      have left : t.socket.bytes = socket.bytes.drop r.contentLength.toNat := by
        rw [show socket.bytes = whole ++ t.socket.bytes from split.symm,
          List.drop_left' exact_length]
      exact ⟨_,_,(body_reads rfl some_sent).mpr ⟨whole,_,t,received,given,rfl,rfl⟩,
        body_again knows rfl given,left,left⟩
  · have none_sent : r.contentLength ≤ 0 := by omega
    refine iff_of_true ?_ (Or.inl none_sent)
    rw [if_neg some_sent, Int.toNat_of_nonpos none_sent]
    exact ⟨_,_,body_empty none_sent socket,body_empty none_sent socket,rfl,rfl⟩

end Calls

/-- A request that announces two bytes. -/
def posted : Request :=
  ⟨"POST".toList,"/".toList,[],[],[("content-length".toList,["2".toList])]⟩

/-- Two bytes that come together, with nothing behind them, are read whole. -/
theorem two_bytes_read : posted.contentLength ≤ ((⟨[7,8],false⟩ : Socket).bytes.length : Int) ∧
    ReadsWhole posted (fun _ => 2) ⟨[7,8],false⟩ :=
  ⟨by decide,(reads_whole_iff posted (fun _ => 2) ⟨[7,8],false⟩ (by decide)).mpr
    (Or.inr (by decide))⟩

/-- Where they come one by one the first is taken for all of them. -/
theorem two_pieces_lost : ∃ r arrived socket, r.contentLength ≤ (socket.bytes.length : Int) ∧
    ¬ ReadsWhole r arrived socket := by
  refine ⟨posted,fun _ => 1,⟨[7,8],false⟩,by decide,?_⟩
  rintro ⟨first,_,ran,-⟩
  have short : body posted (fun _ => 1) (opened ⟨[7,8],false⟩) = .error .pastTheEnd := by decide
  rw [short] at ran
  cases ran

end RequestBodies
