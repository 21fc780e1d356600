import Mathlib.Data.Nat.Digits.Lemmas
import RoomLedger.Proofs.TextReading

namespace RoomLedger

namespace Decimal

variable {part front : List Char} {c : Char} {n : Nat}

def digitValue (c : Char) : Nat := c.toNat - '0'.toNat

def digitsValue (digits : List Char) : Nat := Nat.ofDigits 10 (digits.reverse.map digitValue)

-- At most one plus sign, and then one or more digits.
def Numeral (part : List Char) (n : Nat) : Prop :=
  ∃ digits, (part = digits ∨ part = '+' :: digits) ∧ digits ≠ [] ∧ (∀ c ∈ digits, c.isDigit) ∧
    digitsValue digits = n

theorem digit?_eq (c : Char) : digit? c = if c.isDigit then some (digitValue c) else none := by
  have same : ('0' ≤ c ∧ c ≤ '9') ↔ c.isDigit = true := by
    rw [Char.isDigit, Bool.and_eq_true, decide_eq_true_iff, decide_eq_true_iff]
    rfl
  unfold digit?
  by_cases digit : c.isDigit
  · rw [if_pos (same.mpr digit), if_pos digit]
    rfl
  · rw [if_neg (mt same.mp digit), if_neg digit]

theorem digitsValue_concat (front : List Char) (c : Char) :
    digitsValue (front ++ [c]) = 10 * digitsValue front + digitValue c := by
  rw [digitsValue, List.reverse_concat, List.map_cons, Nat.ofDigits_cons, Nat.add_comm]
  rfl

-- By the last digit, as a numeral is written.
theorem accumulate_concat (front : List Char) (c : Char) :
    accumulate 0 (front ++ [c]) = (accumulate 0 front).bind fun n => (digit? c).map fun d => n * 10 + d := by
  rw [accumulate_append]
  refine congrArg _ (funext fun n => ?_)
  rw [accumulate]
  cases digit? c <;> rfl

theorem accumulate_eq_some_iff :
    accumulate 0 part = some n ↔ (∀ c ∈ part, c.isDigit) ∧ digitsValue part = n := by
  induction part using List.reverseRecOn generalizing n with
  | nil =>
    rw [accumulate, Option.some.injEq]
    exact ⟨fun same => ⟨List.forall_mem_nil _, same⟩, fun given => given.2⟩
  | append_singleton front c ih =>
    rw [accumulate_concat, digit?_eq, digitsValue_concat, List.forall_mem_append, List.forall_mem_singleton]
    cases digit : c.isDigit with
    | false => simp
    | true =>
      simp only [if_pos, Option.map_some, Option.bind_eq_some_iff, ih, Option.some.injEq]
      constructor
      · rintro ⟨m, ⟨all, rfl⟩, rfl⟩
        exact ⟨⟨all, trivial⟩, by rw [Nat.mul_comm]⟩
      · rintro ⟨⟨all, -⟩, rfl⟩
        exact ⟨_, ⟨all, rfl⟩, by rw [Nat.mul_comm]⟩

theorem ofDigits?_eq_some_iff :
    ofDigits? part = some n ↔ part ≠ [] ∧ (∀ c ∈ part, c.isDigit) ∧ digitsValue part = n := by
  cases part with
  | nil => exact ⟨nofun, fun given => absurd rfl given.1⟩
  | cons c rest =>
    change accumulate 0 (c :: rest) = _ ↔ _
    rw [accumulate_eq_some_iff]
    exact ⟨fun given => ⟨List.cons_ne_nil c rest, given⟩, fun given => given.2⟩

theorem ofUnsigned?_eq_some_iff : ofUnsigned? part = some n ↔ Numeral part n := by
  unfold ofUnsigned? Numeral
  split
  · rename_i digits
    rw [ofDigits?_eq_some_iff]
    constructor
    · exact fun given => ⟨digits, .inr rfl, given⟩
    · rintro ⟨other, rfl | same, filled, all, value⟩
      · exact absurd (all '+' (List.mem_cons_self ..)) (by decide)
      · cases same
        exact ⟨filled, all, value⟩
  · rename_i unsigned
    rw [ofDigits?_eq_some_iff]
    constructor
    · exact fun given => ⟨part, .inl rfl, given⟩
    · rintro ⟨digits, rfl | signed, given⟩
      · exact given
      · exact absurd signed (unsigned digits)

theorem Numeral.unique {m : Nat} (one : Numeral part m) (other : Numeral part n) : m = n := by
  have read := ofUnsigned?_eq_some_iff.mpr one
  rw [ofUnsigned?_eq_some_iff.mpr other] at read
  exact (Option.some.inj read).symm

-- No sign, and no zero in front of another digit.
def Bare (part : List Char) : Prop := '+' ∉ part ∧ ∀ rest, part = '0' :: rest → rest = []

theorem bare_digits (n : Nat) : Bare (digits n) := by
  refine ⟨not_mem_digits (by decide), fun rest spelled => ?_⟩
  rcases Nat.lt_or_ge n 10 with small | large
  · rw [digits_of_small small] at spelled
    exact (List.cons.inj spelled).2.symm
  · obtain ⟨d, others, positive, digit, same⟩ := head_digits large
    have leads : ∀ d < 10, 0 < d → digitChar d ≠ '0' := by decide
    rw [same] at spelled
    exact absurd (List.cons.inj spelled).1 (leads d digit positive)

theorem digitChar_digitValue (digit : c.isDigit = true) : digitValue c < 10 ∧ digitChar (digitValue c) = c := by
  obtain ⟨low, high⟩ : '0'.toNat ≤ c.toNat ∧ c.toNat ≤ '9'.toNat := by
    rwa [Char.isDigit, Bool.and_eq_true, decide_eq_true_iff, decide_eq_true_iff] at digit
  refine ⟨Nat.lt_of_le_of_lt (Nat.sub_le_sub_right high _) (by decide), ?_⟩
  rw [digitChar, digitValue, Nat.add_sub_cancel' low, Char.ofNat_toNat]

-- Digits without a zero in front are the ones that their number is written with.
theorem digits_digitsValue (filled : part ≠ []) (all : ∀ c ∈ part, c.isDigit)
    (leading : ∀ rest, part = '0' :: rest → rest = []) : digits (digitsValue part) = part := by
  induction part using List.reverseRecOn with
  | nil => exact absurd rfl filled
  | append_singleton front c ih =>
    rw [List.forall_mem_append, List.forall_mem_singleton] at all
    obtain ⟨small, same⟩ := digitChar_digitValue all.2
    rw [digitsValue_concat]
    rcases List.eq_nil_or_concat front with rfl | ⟨others, last, rfl⟩
    · change digits (10 * 0 + digitValue c) = [c]
      rw [Nat.mul_zero, Nat.zero_add, digits_of_small small, same]
    · rw [List.concat_eq_append] at *
      -- A zero in front would be in front of the whole numeral.
      have zeroless : ∀ rest, others ++ [last] ≠ '0' :: rest := by
        intro rest spelled
        have none := leading (rest ++ [c]) (by rw [spelled, List.cons_append])
        exact List.append_ne_nil_of_right_ne_nil rest (List.cons_ne_nil c []) none
      have written := ih (by simp) all.1 fun rest spelled => absurd spelled (zeroless rest)
      generalize digitsValue (others ++ [last]) = n at written ⊢
      have positive : n ≠ 0 := by
        rintro rfl
        rw [digits_of_small (by decide)] at written
        exact zeroless [] written.symm
      have tenth : (10 * n + digitValue c) / 10 = n := by omega
      have unit : (10 * n + digitValue c) % 10 = digitValue c := by omega
      rw [digits_of_large (by omega), tenth, unit, written, same]

theorem Numeral.digits_eq_iff (numeral : Numeral part n) : digits n = part ↔ Bare part := by
  constructor
  · rintro rfl
    exact bare_digits n
  · rintro ⟨unsigned, leading⟩
    obtain ⟨ds, rfl | rfl, filled, all, rfl⟩ := numeral
    · exact digits_digitsValue filled all leading
    · exact absurd (List.mem_cons_self ..) unsigned

end Decimal

namespace ObjectId

open Decimal

theorem dotted_eq (text : List Char) : dotted text = text.splitOn '.' := by
  induction text with
  | nil => rfl
  | cons c rest ih =>
    rw [List.splitOn_cons_eq_if_modifyHead, ← ih]
    by_cases point : c = '.'
    · subst point
      rfl
    · have parts : dotted rest ≠ [] := by
        rw [ih]
        exact List.splitOn_ne_nil '.' rest
      obtain ⟨part, parts, split⟩ := List.exists_cons_of_ne_nil parts
      rw [dotted, split, if_neg (by simpa using point)]
      · rfl
      · exact point

theorem bounded?_eq_some_iff {bound n : Nat} {part : List Char} :
    bounded? bound part = some n ↔ Numeral part n ∧ n < bound := by
  rw [bounded?, Option.filter_eq_some_iff, ofUnsigned?_eq_some_iff, decide_eq_true_iff]

-- Three numerals, with points between them.
def Spells (text : String) (space type number : Nat) : Prop :=
  ∃ a b c, text.toList.splitOn '.' = [a, b, c] ∧ Numeral a space ∧ Numeral b type ∧ Numeral c number

-- Each numeral fits its part: a byte, a byte and a word.
structure Holds (text : String) (space type number : Nat) : Prop where
  spells : Spells text space type number
  space : space ≤ 255
  type : type ≤ 255
  number : number ≤ 2 ^ 64 - 1

variable {text : String} {s t n : Nat}

theorem Spells.unique {s' t' n' : Nat} (one : Spells text s t n) (other : Spells text s' t' n') :
    s = s' ∧ t = t' ∧ n = n' := by
  obtain ⟨a, b, c, parts, space, type, number⟩ := one
  obtain ⟨a', b', c', parts', space', type', number'⟩ := other
  rw [parts] at parts'
  cases parts'
  exact ⟨space.unique space', type.unique type', number.unique number'⟩

-- A text that holds three numerals is read as them, any other one is refused.
theorem parse_cases (text : String) :
    (∃ s t n, Holds text s t n ∧ parse text = checked (UInt8.ofNat s) (UInt8.ofNat t) n) ∨
      (∀ s t n, ¬Holds text s t n) ∧ parse text = .error (.invalidObjectId text) := by
  unfold parse
  rw [dotted_eq]
  split
  · rename_i a b c parts
    split
    · rename_i s t n space type number
      rw [bounded?_eq_some_iff] at space type number
      exact .inl ⟨s, t, n, ⟨⟨a, b, c, parts, space.1, type.1, number.1⟩, Nat.le_of_lt_succ space.2,
        Nat.le_of_lt_succ type.2, Nat.le_of_lt_succ number.2⟩, rfl⟩
    · rename_i unread
      refine .inr ⟨fun s t n holds => ?_, rfl⟩
      obtain ⟨⟨a', b', c', parts', spaces, types, numbers⟩, space, type, number⟩ := holds
      rw [parts] at parts'
      cases parts'
      exact unread s t n (bounded?_eq_some_iff.mpr ⟨spaces, Nat.lt_succ_of_le space⟩)
        (bounded?_eq_some_iff.mpr ⟨types, Nat.lt_succ_of_le type⟩)
        (bounded?_eq_some_iff.mpr ⟨numbers, Nat.lt_succ_of_le number⟩)
  · rename_i other
    refine .inr ⟨fun s t n holds => ?_, rfl⟩
    obtain ⟨⟨a, b, c, parts, -⟩, -⟩ := holds
    exact other a b c parts

theorem Holds.parse (holds : Holds text s t n) :
    ObjectId.parse text = checked (UInt8.ofNat s) (UInt8.ofNat t) n := by
  rcases parse_cases text with ⟨s', t', n', held, read⟩ | ⟨unheld, -⟩
  · obtain ⟨rfl, rfl, rfl⟩ := holds.spells.unique held.spells
    exact read
  · exact absurd holds (unheld s t n)

theorem parse_eq_ok_iff {id : ObjectId} : parse text = .ok id ↔
    Spells text id.space.toNat id.type.toNat id.number ∧ id.number ≤ maxNumber := by
  constructor
  · intro read
    rcases parse_cases text with ⟨s, t, n, holds, made⟩ | ⟨-, refused⟩
    · rw [made, checked] at read
      split at read
      · rename_i small
        cases read
        rw [UInt8.toNat_ofNat_of_lt' (Nat.lt_succ_of_le holds.space),
          UInt8.toNat_ofNat_of_lt' (Nat.lt_succ_of_le holds.type)]
        exact ⟨holds.spells, small⟩
      · cases read
    · rw [refused] at read
      cases read
  · rintro ⟨spells, small⟩
    have holds : Holds text id.space.toNat id.type.toNat id.number :=
      ⟨spells, Nat.le_of_lt_succ id.space.toNat_lt, Nat.le_of_lt_succ id.type.toNat_lt,
        Nat.le_trans small (by decide)⟩
    rw [holds.parse, checked, if_pos small, UInt8.ofNat_toNat, UInt8.ofNat_toNat]

theorem parse_eq_outOfRange_iff {number : Nat} : parse text = .error (.numberOutOfRange number) ↔
    (∃ space type, Holds text space type number) ∧ maxNumber < number := by
  constructor
  · intro read
    rcases parse_cases text with ⟨s, t, n, holds, made⟩ | ⟨-, refused⟩
    · rw [made, checked] at read
      split at read
      · cases read
      · rename_i large
        cases read
        exact ⟨⟨s, t, holds⟩, Nat.lt_of_not_le large⟩
    · rw [refused] at read
      cases read
  · rintro ⟨⟨s, t, holds⟩, large⟩
    rw [holds.parse, checked, if_neg (Nat.not_le_of_lt large)]

theorem parse_eq_invalid_iff : parse text = .error (.invalidObjectId text) ↔
    ¬∃ space type number, Holds text space type number := by
  constructor
  · rintro read ⟨s, t, n, holds⟩
    rw [holds.parse, checked] at read
    split at read <;> cases read
  · intro unheld
    rcases parse_cases text with ⟨s, t, n, holds, -⟩ | ⟨-, refused⟩
    · exact absurd ⟨s, t, n, holds⟩ unheld
    · exact refused

theorem splitOn_text (id : ObjectId) :
    id.text.toList.splitOn '.' = [digits id.space.toNat, digits id.type.toNat, digits id.number] := by
  have pointless : ∀ n, '.' ∉ digits n := fun _ => not_mem_digits (by decide)
  rw [← dotted_eq, toList_text, dotted_append (pointless _), dotted_append (pointless _),
    dotted_of_not_mem (pointless _)]

theorem eq_of_splitOn {other : String} (same : text.toList.splitOn '.' = other.toList.splitOn '.') :
    text = other := by
  have whole := congrArg (List.intercalate ['.']) same
  rw [List.intercalate_splitOn, List.intercalate_splitOn] at whole
  exact String.toList_inj.mp whole

theorem text_eq_iff {id : ObjectId} (read : parse text = .ok id) :
    id.text = text ↔ ∀ part ∈ text.toList.splitOn '.', Bare part := by
  obtain ⟨⟨a, b, c, parts, space, type, number⟩, -⟩ := parse_eq_ok_iff.mp read
  have bare : (∀ part ∈ [a, b, c], Bare part) ↔ Bare a ∧ Bare b ∧ Bare c := by simp
  rw [parts, bare, ← space.digits_eq_iff, ← type.digits_eq_iff, ← number.digits_eq_iff]
  have split := id.splitOn_text
  constructor
  · rintro rfl
    rw [split] at parts
    cases parts
    exact ⟨rfl, rfl, rfl⟩
  · rintro ⟨rfl, rfl, rfl⟩
    exact eq_of_splitOn (split.trans parts.symm)

end ObjectId

namespace RecordId

variable {k : Kind} {text : String}

theorem parse_of_ok {id : ObjectId} (read : ObjectId.parse text = .ok id) :
    (parse text : Except ValueError (RecordId k)) = ofId id := by
  rw [parse, read]
  rfl

theorem parse_of_error {e : ValueError} (refused : ObjectId.parse text = .error e) :
    (parse text : Except ValueError (RecordId k)) = .error e := by
  rw [parse, refused]
  rfl

theorem ofId_eq (id : ObjectId) : (ofId id : Except ValueError (RecordId k)) =
    if id.space = k.space ∧ id.type = k.type then .ok ⟨id.number⟩
    else .error (.wrongClass k.space k.type id) := by
  simp only [ofId, Kind.owns, ObjectId.hasClass, Bool.and_eq_true, beq_iff_eq]

theorem parse_eq_ok_iff {r : RecordId k} : parse text = .ok r ↔ ∃ id, ObjectId.parse text = .ok id ∧
    (id.space = k.space ∧ id.type = k.type) ∧ id.number = r.number := by
  cases read : ObjectId.parse text with
  | error e =>
    rw [parse_of_error read]
    exact ⟨nofun, nofun⟩
  | ok id =>
    rw [parse_of_ok read, ofId_eq]
    constructor
    · intro made
      split at made
      · rename_i own
        cases made
        exact ⟨id, rfl, own, rfl⟩
      · cases made
    · rintro ⟨id, same, own, number⟩
      cases same
      rw [if_pos own, number]

theorem parse_of_other_class {id : ObjectId} (read : ObjectId.parse text = .ok id)
    (other : ¬(id.space = k.space ∧ id.type = k.type)) :
    (parse text : Except ValueError (RecordId k)) = .error (.wrongClass k.space k.type id) := by
  rw [parse_of_ok read, ofId_eq, if_neg other]

end RecordId

namespace ObjectId

theorem parsing_accepts_exactly_ids :
    (∀ text id, parse text = .ok id ↔
      Spells text id.space.toNat id.type.toNat id.number ∧ id.number ≤ 2 ^ 48 - 1) ∧
    (∀ text number, parse text = .error (.numberOutOfRange number) ↔
      (∃ space type, Holds text space type number) ∧ 2 ^ 48 ≤ number) ∧
    (∀ text, parse text = .error (.invalidObjectId text) ↔ ¬∃ space type number, Holds text space type number) ∧
    (∀ (k : Kind) text (r : RecordId k), RecordId.parse text = .ok r ↔
      ∃ id, parse text = .ok id ∧ (id.space = k.space ∧ id.type = k.type) ∧ id.number = r.number) ∧
    (∀ (k : Kind) text id, parse text = .ok id → ¬(id.space = k.space ∧ id.type = k.type) →
      (RecordId.parse text : Except ValueError (RecordId k)) = .error (.wrongClass k.space k.type id)) ∧
    (∀ (k : Kind) text e, parse text = .error e →
      (RecordId.parse text : Except ValueError (RecordId k)) = .error e) ∧
    (∀ id : ObjectId, id.number ≤ 2 ^ 48 - 1 → parse id.text = .ok id) ∧
    (∀ (k : Kind) (r : RecordId k), r.number ≤ 2 ^ 48 - 1 → RecordId.parse r.text = .ok r) ∧
    ∀ text id, parse text = .ok id → (id.text = text ↔ ∀ part ∈ text.toList.splitOn '.', Decimal.Bare part) :=
  ⟨fun _ _ => parse_eq_ok_iff, fun _ _ => parse_eq_outOfRange_iff, fun _ => parse_eq_invalid_iff,
    fun _ _ _ => RecordId.parse_eq_ok_iff, fun _ _ _ => RecordId.parse_of_other_class,
    fun _ _ _ => RecordId.parse_of_error, fun _ => parse_text, fun _ _ => RecordId.parse_text,
    fun _ _ => text_eq_iff⟩

def padded : String := "+1.0024.281474976710655"

theorem parsing_accepts_exactly_ids_padded :
    parse padded = .ok ⟨1, 24, maxNumber⟩ ∧
    (RecordId.parse padded : Except ValueError RoomId) = .ok ⟨maxNumber⟩ ∧
    (RecordId.parse padded : Except ValueError AccountId) = .error (.wrongClass 1 2 ⟨1, 24, maxNumber⟩) ∧
    (RecordId.parse "1.2.281474976710656" : Except ValueError AccountId) =
      .error (.numberOutOfRange 281474976710656) ∧
    parse (text ⟨1, 24, maxNumber⟩) = .ok ⟨1, 24, maxNumber⟩ ∧
    (RecordId.parse (RecordId.text (⟨57⟩ : RoomId)) : Except ValueError RoomId) = .ok ⟨57⟩ ∧
    text ⟨1, 24, maxNumber⟩ ≠ padded := by
  obtain ⟨-, -, -, typed, others, refused, reads, reads', written⟩ := parsing_accepts_exactly_ids
  have read : parse padded = .ok ⟨1, 24, maxNumber⟩ := by rfl
  have signed : "+1".toList ∈ padded.toList.splitOn '.' := by decide +kernel
  refine ⟨read, (typed .room padded ⟨maxNumber⟩).mpr ⟨_, read, by decide, rfl⟩,
    others .account padded _ read (by decide), refused .account "1.2.281474976710656" _ (by rfl),
    reads _ (by decide), reads' .room ⟨57⟩ (by decide), fun same => ?_⟩
  exact ((written padded _ read).mp same _ signed).1 (by decide +kernel)

end ObjectId

end RoomLedger
