import RoomLedger.Json.Form
import RoomLedger.Value.RecordId

namespace RoomLedger

namespace Decimal

theorem digit?_digitChar : ∀ d < 10, digit? (digitChar d) = some d := by decide

theorem accumulate_append (value : Nat) (front back : List Char) :
    accumulate value (front ++ back) = (accumulate value front).bind (accumulate · back) := by
  induction front generalizing value with
  | nil => rfl
  | cons c rest ih =>
    rw [List.cons_append, accumulate, accumulate]
    cases digit? c with
    | none => rfl
    | some d => exact ih (value * 10 + d)

theorem digits_of_small {n : Nat} (small : n < 10) : digits n = [digitChar n] := by
  rw [digits, if_pos small]

theorem digits_of_large {n : Nat} (large : 10 ≤ n) : digits n = digits (n / 10) ++ [digitChar (n % 10)] := by
  rw [digits, if_neg (by omega)]

-- By the number of digits: all but the last stand for the tenth.
theorem digits_induction {motive : Nat → Prop} (small : ∀ n < 10, motive n)
    (large : ∀ n, 10 ≤ n → motive (n / 10) → motive n) (n : Nat) : motive n := by
  induction n using Nat.strongRecOn with
  | ind n ih =>
    rcases Nat.lt_or_ge n 10 with less | more
    · exact small n less
    · exact large n more (ih (n / 10) (by omega))

theorem accumulate_digits (n : Nat) : accumulate 0 (digits n) = some n := by
  induction n using digits_induction with
  | small n small =>
    rw [digits_of_small small, accumulate, digit?_digitChar n small]
    exact congrArg some (Nat.zero_add n)
  | large n large ih =>
    rw [digits_of_large large, accumulate_append, ih, Option.bind_some, accumulate,
      digit?_digitChar (n % 10) (Nat.mod_lt n (by decide))]
    exact congrArg some (by omega)

theorem mem_digits {n : Nat} {c : Char} (member : c ∈ digits n) : ∃ d < 10, c = digitChar d := by
  induction n using digits_induction with
  | small n small =>
    rw [digits_of_small small, List.mem_singleton] at member
    exact ⟨n, small, member⟩
  | large n large ih =>
    rw [digits_of_large large, List.mem_append, List.mem_singleton] at member
    rcases member with early | last
    · exact ih early
    · exact ⟨n % 10, Nat.mod_lt n (by decide), last⟩

theorem digits_ne_nil (n : Nat) : digits n ≠ [] := by
  induction n using digits_induction with
  | small n small => simp [digits_of_small small]
  | large n large _ => simp [digits_of_large large]

theorem ofDigits?_digits (n : Nat) : ofDigits? (digits n) = some n := by
  cases spelled : digits n with
  | nil => exact absurd spelled (digits_ne_nil n)
  | cons c rest =>
    have read := accumulate_digits n
    rwa [spelled] at read

theorem not_mem_digits {n : Nat} {c : Char} (other : ∀ d < 10, c ≠ digitChar d) : c ∉ digits n := by
  intro member
  obtain ⟨d, small, same⟩ := mem_digits member
  exact other d small same

theorem head_digits {n : Nat} (large : 10 ≤ n) : ∃ d rest, 0 < d ∧ d < 10 ∧ digits n = digitChar d :: rest := by
  induction n using digits_induction with
  | small n small => omega
  | large n large ih =>
    rw [digits_of_large large]
    rcases Nat.lt_or_ge (n / 10) 10 with less | more
    · rw [digits_of_small less]
      exact ⟨n / 10, _, by omega, less, rfl⟩
    · obtain ⟨d, rest, positive, small, spelled⟩ := ih more
      rw [spelled]
      exact ⟨d, _, positive, small, rfl⟩

theorem ofUnsigned?_digits (n : Nat) : ofUnsigned? (digits n) = some n := by
  have unsigned : '+' ∉ digits n := not_mem_digits (by decide)
  rw [← ofDigits?_digits n]
  cases spelled : digits n with
  | nil => rfl
  | cons c rest =>
    rw [spelled, List.mem_cons, not_or] at unsigned
    unfold ofUnsigned?
    split
    · rename_i same
      cases same
      exact absurd rfl unsigned.1
    · rfl

theorem toList_text (n : Nat) : (text n).toList = digits n := String.toList_ofList

end Decimal

namespace Json

open Decimal

theorem integer?_digits (n : Nat) : integer? (digits n) = some (n : Int) := by
  have unsigned : '-' ∉ digits n := not_mem_digits (by decide)
  have read : (ofDigits? (digits n)).map Int.ofNat = some (n : Int) := by
    rw [ofDigits?_digits]
    rfl
  rw [← read]
  cases spelled : digits n with
  | nil => rfl
  | cons c rest =>
    rw [spelled, List.mem_cons, not_or] at unsigned
    unfold integer?
    split
    · rename_i same
      cases same
      exact absurd rfl unsigned.1
    · rename_i same
      cases same
      exact absurd rfl unsigned.1
    · rfl

theorem integer?_signedText (n : Int) : integer? (signedText n).toList = some n := by
  cases n with
  | ofNat n =>
    rw [signedText, toList_text]
    exact integer?_digits n
  | negSucc n =>
    have read := ofDigits?_digits (n + 1)
    have spelled : (signedText (.negSucc n)).toList = '-' :: digits (n + 1) := by
      rw [signedText, String.toList_append, toList_text]
      rfl
    rw [spelled]
    unfold integer?
    split
    · rename_i same
      rw [(List.cons.inj same).2] at read
      cases read
    · rename_i same
      cases same
      rw [read]
      rfl
    · rename_i signed
      exact (signed _ rfl).elim

theorem asInt?_ofInt (n : Int) : (ofInt n).asInt? = some n := integer?_signedText n

theorem asInt?_ofNat (n : Nat) : (ofNat n).asInt? = some (n : Int) := integer?_signedText n

end Json

theorem Form.canonicalNat?_text {bound n : Nat} (small : n < bound) : canonicalNat? bound (Decimal.text n) = some n := by
  have read : (Decimal.ofDigits? (Decimal.digits n)).filter (fun n => decide (n < bound)) = some n := by
    rw [Decimal.ofDigits?_digits]
    exact if_pos (decide_eq_true small)
  unfold canonicalNat?
  rw [Decimal.toList_text]
  rcases Nat.lt_or_ge n 10 with single | several
  · rw [Decimal.digits_of_small single] at read ⊢
    split
    · rename_i same
      cases (List.cons.inj same).2
    · exact read
  · obtain ⟨d, rest, positive, digit, spelled⟩ := Decimal.head_digits several
    have leads : ∀ d < 10, 0 < d → Decimal.digitChar d ≠ '0' := by decide
    rw [spelled] at read ⊢
    split
    · rename_i same
      exact absurd (List.cons.inj same).1 (leads d digit positive)
    · exact read

namespace ObjectId

theorem dotted_of_not_mem {field : List Char} (plain : '.' ∉ field) : dotted field = [field] := by
  induction field with
  | nil => rfl
  | cons c rest ih =>
    rw [List.mem_cons, not_or] at plain
    rw [dotted, ih plain.2]
    exact fun same => plain.1 same.symm

theorem dotted_append {field : List Char} (plain : '.' ∉ field) (rest : List Char) :
    dotted (field ++ '.' :: rest) = field :: dotted rest := by
  induction field with
  | nil => rfl
  | cons c more ih =>
    rw [List.mem_cons, not_or] at plain
    rw [List.cons_append, dotted, ih plain.2]
    exact fun same => plain.1 same.symm

theorem bounded?_digits {bound n : Nat} (small : n < bound) : bounded? bound (Decimal.digits n) = some n := by
  unfold bounded?
  rw [Decimal.ofUnsigned?_digits]
  exact if_pos (decide_eq_true small)

theorem toList_text (id : ObjectId) : id.text.toList = Decimal.digits id.space.toNat ++
    '.' :: (Decimal.digits id.type.toNat ++ '.' :: Decimal.digits id.number) := by
  simp only [text, String.toList_append, Decimal.toList_text, List.append_assoc]
  rfl

theorem parse_text {id : ObjectId} (small : id.number ≤ maxNumber) : parse id.text = .ok id := by
  have pointless : ∀ n, '.' ∉ Decimal.digits n := fun _ => Decimal.not_mem_digits (by decide)
  have number : id.number < UInt64.size := Nat.lt_of_le_of_lt small (by decide)
  unfold parse
  rw [toList_text, dotted_append (pointless _), dotted_append (pointless _), dotted_of_not_mem (pointless _)]
  simp only [bounded?_digits id.space.toNat_lt, bounded?_digits id.type.toNat_lt, bounded?_digits number]
  rw [checked, if_pos small, UInt8.ofNat_toNat, UInt8.ofNat_toNat]

end ObjectId

theorem Kind.owns_id (k : Kind) (n : Nat) : k.owns (k.id n) = true := (owns_iff k _).mpr rfl

theorem RecordId.parse_text {k : Kind} {r : RecordId k} (small : r.number ≤ ObjectId.maxNumber) :
    RecordId.parse r.text = .ok r := by
  have read : ObjectId.parse r.id.text = .ok r.id := ObjectId.parse_text small
  unfold parse text
  rw [read]
  change ofId r.id = _
  exact if_pos (Kind.owns_id k r.number)

namespace Spelling

def isPlain (c : Char) : Bool := c != '"' && c != '\\' && decide (0x20 ≤ c.toNat)

theorem hexDigit?_lowHex : ∀ d < 16, hexDigit? (lowHex d) = some d := by decide

theorem unescape_plain {c : Char} (plain : isPlain c = true) (rest : List Char) :
    unescape (c :: rest) = (unescape rest).map (c :: ·) := by
  simp only [isPlain, Bool.and_eq_true, bne_iff_ne, ne_eq, decide_eq_true_iff] at plain
  obtain ⟨⟨quote, slash⟩, visible⟩ := plain
  rw [unescape]
  · rw [if_neg (by simp [slash, quote]; omega)]
    cases unescape rest <;> rfl
  · exact fun _ _ _ _ _ same => absurd same slash
  · exact fun _ _ same => absurd same slash

theorem unescape_control {c : Char} (control : c.toNat < 0x20) (rest : List Char) :
    unescape ('\\' :: 'u' :: '0' :: '0' :: lowHex (c.toNat / 16) :: lowHex (c.toNat % 16) :: rest) =
      (unescape rest).map (c :: ·) := by
  have high := hexDigit?_lowHex (c.toNat / 16) (by omega)
  have low := hexDigit?_lowHex (c.toNat % 16) (by omega)
  have unit : unit? '0' '0' (lowHex (c.toNat / 16)) (lowHex (c.toNat % 16)) = some c.toNat := by
    unfold unit?
    rw [high, low]
    refine congrArg some ?_
    change ((0 * 16 + 0) * 16 + c.toNat / 16) * 16 + c.toNat % 16 = c.toNat
    omega
  have one : isLow c.toNat = false ∧ isHigh c.toNat = false := by
    simp only [isLow, isHigh, decide_eq_false_iff_not]
    omega
  rw [unescape, unit]
  simp only [Option.bind_eq_bind, Option.bind_some, one, Char.ofNat_toNat]
  cases unescape rest <;> rfl

theorem unescape_short {e c : Char} (short : shortEscape? e = some c) (rest : List Char) :
    unescape ('\\' :: e :: rest) = (unescape rest).map (c :: ·) := by
  rw [unescape]
  · rw [short]
    cases unescape rest <;> rfl
  · intro _ _ _ _ _ same
    cases same
    cases short

theorem unescape_escapeChar (c : Char) (rest : List Char) :
    unescape (escapeChar c ++ rest) = (unescape rest).map (c :: ·) := by
  unfold escapeChar
  -- Seven characters have an escape of their own.
  iterate 7
    split
    · subst c
      exact unescape_short rfl rest
  split
  · rename_i control
    exact unescape_control control rest
  · rename_i quote slash _ _ _ _ _ visible
    refine unescape_plain ?_ rest
    simp only [isPlain, Bool.and_eq_true, bne_iff_ne, ne_eq, decide_eq_true_iff]
    exact ⟨⟨quote, slash⟩, Nat.not_lt.mp visible⟩

theorem unescape_escaped (s : List Char) : unescape (s.flatMap escapeChar) = some s := by
  induction s with
  | nil => rfl
  | cons c rest ih =>
    rw [List.flatMap_cons, unescape_escapeChar, ih]
    rfl

theorem unescape_plains {s : List Char} (plain : ∀ c ∈ s, isPlain c = true) : unescape s = some s := by
  induction s with
  | nil => rfl
  | cons c rest ih =>
    rw [List.forall_mem_cons] at plain
    rw [unescape_plain plain.1, ih plain.2]
    rfl

theorem unescape_ofText (s : String) : unescape (ofText s).toList = some s.toList := by
  unfold ofText
  split
  · rename_i plain
    exact unescape_plains (List.all_eq_true.mp plain)
  · rw [String.toList_ofList]
    exact unescape_escaped s.toList

theorem text?_ofText (s : String) : text? (ofText s) = some s := by
  unfold text?
  rw [unescape_ofText]
  exact congrArg some String.ofList_toList

-- Whatever has a text may stand between quotes.
theorem wellSpelled_of_unescape {spelling plain : List Char} (read : unescape spelling = some plain) :
    wellSpelled spelling = true := by
  fun_induction unescape spelling generalizing plain with
  | case1 => rfl
  -- A high surrogate needs the low one after it, any other unit stands by itself.
  | case2 a b c d rest pair single =>
    obtain ⟨unit, digits, read⟩ := Option.bind_eq_some_iff.mp read
    rw [wellSpelled, digits, Option.isSome_some, Bool.true_and]
    split at read
    · cases read
    · split at read
      · split at read
        · obtain ⟨low, partner, read⟩ := Option.bind_eq_some_iff.mp read
          split at read
          · obtain ⟨more, later, -⟩ := Option.bind_eq_some_iff.mp read
            rw [wellSpelled, partner, pair later]
            rfl
          · cases read
        · cases read
      · obtain ⟨more, later, -⟩ := Option.bind_eq_some_iff.mp read
        exact single later
  | case3 c rest other ih =>
    obtain ⟨short, known, read⟩ := Option.bind_eq_some_iff.mp read
    obtain ⟨more, later, -⟩ := Option.bind_eq_some_iff.mp read
    rw [wellSpelled, known, ih later]
    · rfl
    · exact other
  | case4 => cases read
  | case5 c rest other another visible ih =>
    obtain ⟨more, later, -⟩ := Option.bind_eq_some_iff.mp read
    simp only [not_or, Nat.not_lt] at visible
    rw [wellSpelled, ih later, bne_iff_ne.mpr visible.1, bne_iff_ne.mpr visible.2.1, decide_eq_true visible.2.2]
    · rfl
    · exact other
    · exact another

theorem wellSpelled_ofText (s : String) : wellSpelled (ofText s).toList = true :=
  wellSpelled_of_unescape (unescape_ofText s)

theorem wellSpelled_digits (n : Nat) : wellSpelled (Decimal.digits n) = true := by
  have plain : ∀ d < 10, isPlain (Decimal.digitChar d) = true := by decide
  refine wellSpelled_of_unescape (unescape_plains fun c member => ?_)
  obtain ⟨d, small, rfl⟩ := Decimal.mem_digits member
  exact plain d small

end Spelling

end RoomLedger
