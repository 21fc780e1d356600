import Mathlib.Data.List.TakeWhile
import RoomLedger.Json.Printer
import RoomLedger.Json.Reader
import RoomLedger.Proofs.BinaryReading
import RoomLedger.Proofs.TextReading

namespace RoomLedger

namespace Wire

variable {c : Char} {bytes : List UInt8}

theorem utf8_eq (s : String) : utf8 s = s.toList.flatMap String.utf8EncodeChar := by
  have whole : s.toByteArray = s.toList.utf8Encode := String.utf8Encode_toList.symm
  change s.toByteArray.data.toList = _
  rw [whole, List.utf8Encode, List.toList_data_toByteArray]

theorem ofUtf8?_character (c : Char) : ofUtf8? (String.utf8EncodeChar c) = some (String.ofList [c]) := by
  have bytes : utf8 (String.ofList [c]) = String.utf8EncodeChar c := by
    rw [utf8_eq, String.toList_ofList, List.flatMap_cons, List.flatMap_nil, List.append_nil]
  rw [← bytes, ofUtf8?_utf8]

theorem character_inj {c other : Char} {rest more : List UInt8}
    (same : String.utf8EncodeChar c ++ rest = String.utf8EncodeChar other ++ more) : c = other := by
  have decode : ∀ (c : Char) (rest : List UInt8),
      ByteArray.utf8DecodeChar? (String.utf8EncodeChar c ++ rest).toByteArray 0 = some c := by
    intro c rest
    rw [List.toByteArray_append]
    exact ByteArray.utf8DecodeChar?_utf8EncodeChar_append
  exact Option.some.inj ((decode c rest).symm.trans (same ▸ decode other more))

theorem ofUtf8?_part {k : Nat} (rest : List UInt8) (positive : 0 < k) (short : k < c.utf8Size) :
    ofUtf8? ((String.utf8EncodeChar c ++ rest).take k) = none := by
  cases read : ofUtf8? ((String.utf8EncodeChar c ++ rest).take k) with
  | none => rfl
  | some s =>
    have bytes := ofUtf8?_eq_some read
    have size := String.length_utf8EncodeChar c
    rw [utf8_eq] at bytes
    have length := congrArg List.length bytes
    rw [List.length_take, List.length_append, size, Nat.min_eq_left (by omega)] at length
    cases chars : s.toList with
    | nil =>
      rw [chars, List.flatMap_nil, List.length_nil] at length
      omega
    | cons other more =>
      rw [chars, List.flatMap_cons] at bytes length
      have whole := List.take_append_drop k (String.utf8EncodeChar c ++ rest)
      rw [← bytes, List.append_assoc] at whole
      cases character_inj whole
      rw [List.length_append, size] at length
      omega

-- Of the prefixes that are tried, the one of the size of the character is the first that is read.
theorem firstCharacter?_character (c : Char) (rest : List UInt8) :
    firstCharacter? (String.utf8EncodeChar c ++ rest) = some (c, c.utf8Size - 1) := by
  have size := String.length_utf8EncodeChar c
  have part := fun k (less : k + 1 < c.utf8Size) => ofUtf8?_part (c := c) rest (Nat.succ_pos k) less
  have whole : ofUtf8? ((String.utf8EncodeChar c ++ rest).take c.utf8Size) = some (String.ofList [c]) := by
    rw [← size, List.take_left, ofUtf8?_character]
  unfold firstCharacter?
  match sized : c.utf8Size, c.utf8Size_pos, c.utf8Size_le_four with
  | 1, _, _ | 2, _, _ | 3, _, _ | 4, _, _ =>
    rw [sized] at part whole
    simp [part, whole]

theorem charactersAfter_passed (front back : List UInt8) :
    charactersAfter front.length (front ++ back) = charactersAfter 0 back := by
  induction front with
  | nil => rfl
  | cons b rest ih => exact ih

theorem characters_utf8 (s : String) : characters (utf8 s) = s.toList.map some := by
  rw [utf8_eq]
  generalize s.toList = chars
  induction chars with
  | nil => rfl
  | cons c rest ih =>
    have first := firstCharacter?_character c (rest.flatMap String.utf8EncodeChar)
    have size := String.length_utf8EncodeChar c
    have positive := c.utf8Size_pos
    cases bytes : String.utf8EncodeChar c with
    | nil =>
      rw [bytes, List.length_nil] at size
      omega
    | cons b more =>
      rw [bytes, List.length_cons] at size
      rw [bytes, List.cons_append] at first
      have passed : c.utf8Size - 1 = more.length := by omega
      rw [List.flatMap_cons, bytes, List.cons_append, characters, charactersAfter, first, passed]
      exact congrArg (some c :: ·) ((charactersAfter_passed more _).trans ih)

end Wire

namespace Json

-- Trees that have a text: numbers follow their grammar and strings are escaped.
inductive Spelled : Json → Prop where
  | null : Spelled .null
  | bool (value : Bool) : Spelled (.bool value)
  | number {spelling : String} (grammatical : isNumber spelling.toList = true) : Spelled (.number spelling)
  | text {spelling : String} (escaped : Spelling.wellSpelled spelling.toList = true) : Spelled (.text spelling)
  | list {items : List Json} (each : ∀ item ∈ items, Spelled item) : Spelled (.list items)
  | record {members : List (String × Json)} (names : ∀ m ∈ members, Spelling.wellSpelled m.1.toList = true)
    (each : ∀ m ∈ members, Spelled m.2) : Spelled (.record members)

theorem digit_cases {c : Char} (digit : c.isDigit = true) : ∃ d < 10, c = Decimal.digitChar d := by
  rw [Char.isDigit, Bool.and_eq_true, decide_eq_true_iff, decide_eq_true_iff] at digit
  have low : 48 ≤ c.toNat := digit.1
  have high : c.toNat ≤ 57 := digit.2
  refine ⟨c.toNat - 48, by omega, ?_⟩
  have sum : '0'.toNat + (c.toNat - 48) = c.toNat := Nat.add_sub_cancel' low
  rw [Decimal.digitChar, sum, Char.ofNat_toNat]

theorem start?_number {c : Char} (leads : c = '-' ∨ c.isDigit = true) : start? c = some ([], .inNumber [c]) := by
  rcases leads with rfl | digit
  · rfl
  · obtain ⟨d, small, rfl⟩ := digit_cases digit
    match d, small with
    | 0, _ | 1, _ | 2, _ | 3, _ | 4, _ | 5, _ | 6, _ | 7, _ | 8, _ | 9, _ => rfl

theorem numeric_digits {chars : List Char} (digits : chars.all Char.isDigit = true) :
    chars.all isNumberChar = true := by
  rw [List.all_eq_true] at digits ⊢
  intro c member
  rw [isNumberChar, digits c member]
  rfl

theorem numeric_exponent {rest : List Char} (grammatical : (match rest with
    | [] => true
    | e :: rest =>
      let digits := match rest with | '+' :: more => more | '-' :: more => more | _ => rest
      (e == 'e' || e == 'E') && !digits.isEmpty && digits.all Char.isDigit) = true) :
    rest.all isNumberChar = true := by
  cases rest with
  | nil => rfl
  | cons e rest =>
    dsimp only at grammatical
    rw [Bool.and_eq_true, Bool.and_eq_true] at grammatical
    obtain ⟨⟨letter, -⟩, digits⟩ := grammatical
    have mark : isNumberChar e = true := by rw [isNumberChar, Bool.or_assoc, letter, Bool.or_true]
    have numeric : rest.all isNumberChar = true := by
      split at digits
      · rw [List.all_cons, numeric_digits digits]
        rfl
      · rw [List.all_cons, numeric_digits digits]
        rfl
      · exact numeric_digits digits
    rw [List.all_cons, mark, numeric]
    rfl

theorem numeric_split {chars : List Char} (numeric : (chars.dropWhile Char.isDigit).all isNumberChar = true) :
    chars.all isNumberChar = true := by
  rw [← List.takeWhile_append_dropWhile (p := Char.isDigit) (l := chars), List.all_append, numeric,
    numeric_digits List.all_takeWhile]
  rfl

theorem leads_of_digits {chars : List Char} (nonempty : chars.takeWhile Char.isDigit ≠ []) :
    ∃ c more, chars = c :: more ∧ c.isDigit = true := by
  cases chars with
  | nil => exact absurd rfl nonempty
  | cons c more =>
    refine ⟨c, more, rfl, ?_⟩
    rw [List.takeWhile_cons] at nonempty
    split at nonempty
    · assumption
    · exact absurd rfl nonempty

theorem chars_of_isNumber {spelling : List Char} (grammatical : isNumber spelling = true) :
    ∃ c more, spelling = c :: more ∧ (c = '-' ∨ c.isDigit = true) ∧ more.all isNumberChar = true := by
  unfold isNumber at grammatical
  extract_lets unsigned whole rest wholeOk at grammatical
  split at grammatical
  rename_i fractionOk after split
  rw [Bool.and_eq_true, Bool.and_eq_true] at grammatical
  obtain ⟨⟨begins, -⟩, ends⟩ := grammatical
  have exponent := numeric_exponent ends
  have tail : rest.all isNumberChar = true := by
    clear_value rest
    split at split
    · cases split
      rw [List.all_cons, numeric_split exponent]
      rfl
    · cases split
      exact exponent
  have numeric : unsigned.all isNumberChar = true := numeric_split tail
  have nonempty : whole ≠ [] := by
    intro empty
    dsimp only [wholeOk] at begins
    rw [empty] at begins
    cases begins
  have signed : spelling = '-' :: unsigned ∨ spelling = unsigned := by
    dsimp only [unsigned]
    split
    · exact .inl rfl
    · exact .inr rfl
  rcases signed with negative | plain
  · exact ⟨'-', unsigned, negative, .inl rfl, numeric⟩
  · obtain ⟨c, more, spelled, digit⟩ := leads_of_digits nonempty
    rw [spelled, List.all_cons, Bool.and_eq_true] at numeric
    exact ⟨c, more, plain.trans spelled, .inr digit, numeric.2⟩

theorem isDigit_digitChar : ∀ d < 10, (Decimal.digitChar d).isDigit = true := by decide

theorem isNumber_negative {c : Char} {more : List Char} (signless : c ≠ '-') :
    isNumber ('-' :: c :: more) = isNumber (c :: more) := by
  unfold isNumber
  split
  · split
    · rename_i same
      exact absurd (List.cons.inj same).1 signless
    · rename_i same _ _
      rw [(List.cons.inj same).2]
  · rename_i other
    exact absurd rfl (other _)

theorem isNumber_numeral {c : Char} {more : List Char} (all : ∀ x ∈ c :: more, x.isDigit = true)
    (canonical : c = '0' → more = []) : isNumber (c :: more) = true ∧ isNumber ('-' :: c :: more) = true := by
  have taken : (c :: more).takeWhile Char.isDigit = c :: more := List.takeWhile_eq_self_iff.mpr all
  have nothing : (c :: more).dropWhile Char.isDigit = [] := List.dropWhile_eq_nil_iff.mpr all
  have signless : c ≠ '-' := by
    rintro rfl
    cases all '-' (List.mem_cons_self ..)
  have unsigned : isNumber (c :: more) = true := by
    unfold isNumber
    split
    · rename_i same
      exact absurd (List.cons.inj same).1 signless
    · simp only [taken, nothing]
      split
      · contradiction
      · rename_i zero
        cases zero
        rw [canonical rfl]
        rfl
      · rfl
  exact ⟨unsigned, (isNumber_negative signless).trans unsigned⟩

theorem isNumber_digits (n : Nat) : isNumber (Decimal.digits n) = true ∧ isNumber ('-' :: Decimal.digits n) = true := by
  have all : ∀ c ∈ Decimal.digits n, c.isDigit = true := by
    intro c member
    obtain ⟨d, small, rfl⟩ := Decimal.mem_digits member
    exact isDigit_digitChar d small
  rcases Nat.lt_or_ge n 10 with single | several
  · rw [Decimal.digits_of_small single] at all ⊢
    exact isNumber_numeral all fun _ => rfl
  · obtain ⟨d, rest, positive, digit, spelled⟩ := Decimal.head_digits several
    have leads : ∀ d < 10, 0 < d → Decimal.digitChar d ≠ '0' := by decide
    rw [spelled] at all ⊢
    exact isNumber_numeral all fun zero => absurd zero (leads d digit positive)

theorem isNumber_signedText (n : Int) : isNumber (Decimal.signedText n).toList = true := by
  cases n with
  | ofNat n =>
    rw [Decimal.signedText, Decimal.toList_text]
    exact (isNumber_digits n).1
  | negSucc n =>
    rw [Decimal.signedText, String.toList_append, Decimal.toList_text]
    exact (isNumber_digits (n + 1)).2

section

variable (before : List Token) (read : List Char) (c : Char) (rest : List (Option Char))

theorem tokens?_end (mode : Mode) : tokens? before mode [] = do
    let finished ← finish? mode
    return (finished.reverse ++ before).reverse := by
  cases mode <;> rfl

theorem tokens?_between : tokens? before .between (some c :: rest) = (do
    let (started, mode) ← start? c
    tokens? (started ++ before) mode rest) := rfl

theorem tokens?_number : tokens? before (.inNumber read) (some c :: rest) =
    if isNumberChar c then tokens? before (.inNumber (c :: read)) rest
    else (do
      let finished ← finish? (.inNumber read)
      let (started, mode) ← start? c
      tokens? (started ++ finished ++ before) mode rest) := rfl

theorem tokens?_word : tokens? before (.inWord read) (some c :: rest) =
    if c.isAlphanum then tokens? before (.inWord (c :: read)) rest
    else (do
      let finished ← finish? (.inWord read)
      let (started, mode) ← start? c
      tokens? (started ++ finished ++ before) mode rest) := rfl

theorem tokens?_text : tokens? before (.inText read false false) (some c :: rest) =
    if c == '"' then (do
      let token ← string? read.reverse false
      tokens? (token :: before) .between rest)
    else tokens? before (.inText (c :: read) (c == '\\') false) rest := rfl

theorem tokens?_escaped : tokens? before (.inText read true false) (some c :: rest) =
    tokens? before (.inText (c :: read) false false) rest := rfl

end

def endsWord (c : Char) : Bool := !isNumberChar c && !c.isAlphanum

inductive Stops : List (Option Char) → Prop where
  | done : Stops []
  | mark {c : Char} (ends : endsWord c = true) (rest : List (Option Char)) : Stops (some c :: rest)

-- Between tokens, characters give tokens.
def Scans (chars : List Char) (tokens : List Token) : Prop :=
  ∀ before rest, Stops rest →
    tokens? before .between (chars.map some ++ rest) = tokens? (tokens.reverse ++ before) .between rest

namespace Scans

variable {c : Char} {chars : List Char} {tokens : List Token} {token : Token}

theorem nil : Scans [] [] := fun _ _ _ => rfl

theorem mark (starts : start? c = some ([token], .between)) (next : Scans chars tokens) :
    Scans (c :: chars) (token :: tokens) := by
  intro before rest stops
  have one : tokens? before .between ((c :: chars).map some ++ rest) =
      tokens? (token :: before) .between (chars.map some ++ rest) := by
    rw [List.map_cons, List.cons_append, tokens?_between, starts]
    rfl
  rw [one, next _ _ stops, List.reverse_cons, List.append_assoc]
  rfl

theorem blanks {front : List Char} (blank : front.all isBlank = true) (next : Scans chars tokens) :
    Scans (front ++ chars) tokens := by
  intro before rest stops
  induction front with
  | nil => exact next before rest stops
  | cons c more ih =>
    rw [List.all_cons, Bool.and_eq_true] at blank
    have starts : start? c = some ([], .between) := if_pos blank.1
    rw [List.cons_append, List.map_cons, List.cons_append, tokens?_between, starts]
    exact ih blank.2

theorem append {front back : List Char} {one more : List Token} (first : Scans front one)
    (later : Scans (c :: back) more) (ends : endsWord c = true) : Scans (front ++ c :: back) (one ++ more) := by
  intro before rest stops
  rw [List.map_append, List.append_assoc, List.reverse_append, List.append_assoc]
  exact (first _ _ (.mark ends _)).trans (later _ _ stops)

-- A word and a number are closed alike, by the end of the text or a character that is not of their kind.
theorem closed {mode : Mode} {tree : Json} (finished : finish? mode = some [.leaf tree])
    (leaves : ∀ before c rest, endsWord c = true → tokens? before mode (some c :: rest) = do
      let finished ← finish? mode
      let (started, mode) ← start? c
      tokens? (started ++ finished ++ before) mode rest)
    (before : List Token) {rest : List (Option Char)} (stops : Stops rest) :
    tokens? before mode rest = tokens? (.leaf tree :: before) .between rest := by
  cases stops with
  | done =>
    rw [tokens?_end, tokens?_end, finished]
    rfl
  | mark ends rest =>
    rw [leaves _ _ _ ends, finished, tokens?_between]
    simp only [Option.bind_eq_bind, Option.bind_some, List.append_assoc, List.singleton_append]

theorem closed_number (read : List Char) (grammatical : isNumber read.reverse = true) (before : List Token)
    {rest : List (Option Char)} (stops : Stops rest) : tokens? before (.inNumber read) rest =
      tokens? (.leaf (.number (String.ofList read.reverse)) :: before) .between rest := by
  have finished : finish? (.inNumber read) = some [.leaf (.number (String.ofList read.reverse))] := if_pos grammatical
  refine closed finished (fun before c rest ends => ?_) before stops
  rw [endsWord, Bool.and_eq_true, Bool.not_eq_true', Bool.not_eq_true'] at ends
  rw [tokens?_number, ends.1]
  rfl

theorem closed_word (read : List Char) {tree : Json} (known : word? read.reverse = some tree) (before : List Token)
    {rest : List (Option Char)} (stops : Stops rest) :
    tokens? before (.inWord read) rest = tokens? (.leaf tree :: before) .between rest := by
  have finished : finish? (.inWord read) = some [.leaf tree] := congrArg (Option.map fun t => [Token.leaf t]) known
  refine closed finished (fun before c rest ends => ?_) before stops
  rw [endsWord, Bool.and_eq_true, Bool.not_eq_true', Bool.not_eq_true'] at ends
  rw [tokens?_word, ends.2]
  rfl

theorem passed_number (numeric : chars.all isNumberChar = true) (before : List Token) (read : List Char)
    (rest : List (Option Char)) : tokens? before (.inNumber read) (chars.map some ++ rest) =
      tokens? before (.inNumber (chars.reverse ++ read)) rest := by
  induction chars generalizing read with
  | nil => rfl
  | cons c more ih =>
    rw [List.all_cons, Bool.and_eq_true] at numeric
    rw [List.map_cons, List.cons_append, tokens?_number, if_pos numeric.1, ih numeric.2, List.reverse_cons,
      List.append_assoc]
    rfl

theorem word_null : Scans "null".toList [.leaf .null] :=
  fun before _ stops => closed_word ['l', 'l', 'u', 'n'] rfl before stops

theorem word_true : Scans "true".toList [.leaf (.bool true)] :=
  fun before _ stops => closed_word ['e', 'u', 'r', 't'] rfl before stops

theorem word_false : Scans "false".toList [.leaf (.bool false)] :=
  fun before _ stops => closed_word ['e', 's', 'l', 'a', 'f'] rfl before stops

theorem number {spelling : String} (grammatical : isNumber spelling.toList = true) :
    Scans spelling.toList [.leaf (.number spelling)] := by
  intro before rest stops
  obtain ⟨c, more, spelled, leads, numeric⟩ := chars_of_isNumber grammatical
  have read : (more.reverse ++ [c]).reverse = spelling.toList := by
    rw [List.reverse_append, List.reverse_reverse, spelled]
    rfl
  rw [spelled, List.map_cons, List.cons_append, tokens?_between, start?_number leads]
  refine (passed_number numeric before [c] rest).trans ?_
  rw [closed_number _ (by rwa [read]) before stops, read, String.ofList_toList]
  rfl

-- Outside of escapes only a quote and a backslash mean anything.
theorem passed_plain (plain : ∀ c ∈ chars, c ≠ '"' ∧ c ≠ '\\') (before : List Token) (read : List Char)
    (rest : List (Option Char)) : tokens? before (.inText read false false) (chars.map some ++ rest) =
      tokens? before (.inText (chars.reverse ++ read) false false) rest := by
  induction chars generalizing read with
  | nil => rfl
  | cons c more ih =>
    obtain ⟨⟨quote, slash⟩, plain⟩ := List.forall_mem_cons.mp plain
    rw [List.map_cons, List.cons_append, tokens?_text, if_neg (by rwa [beq_iff_eq]), beq_eq_false_iff_ne.mpr slash,
      ih plain, List.reverse_cons, List.append_assoc]
    rfl

theorem passed_escape (before : List Token) (read : List Char) (c : Char) (rest : List (Option Char)) :
    tokens? before (.inText read false false) (some '\\' :: some c :: rest) =
      tokens? before (.inText (c :: '\\' :: read) false false) rest := by
  rw [tokens?_text, if_neg (by decide)]
  exact tokens?_escaped ..

theorem plain_of_hexDigit? {c : Char} (digit : (Spelling.hexDigit? c).isSome = true) : c ≠ '"' ∧ c ≠ '\\' := by
  constructor
  · rintro rfl
    cases digit
  · rintro rfl
    cases digit

theorem hexDigits_of_unit? {a b c d : Char} (unit : (Spelling.unit? a b c d).isSome = true) :
    ∀ x ∈ [a, b, c, d], (Spelling.hexDigit? x).isSome = true := by
  obtain ⟨value, spelled⟩ := Option.isSome_iff_exists.mp unit
  simp only [Spelling.unit?, Option.bind_eq_bind, Option.bind_eq_some_iff] at spelled
  obtain ⟨w, one, x, two, y, three, z, four, -⟩ := spelled
  simp [one, two, three, four]

-- The escapes are passed as wholes, so that no quote or slash in them is taken for one by itself.
theorem passed_text {spelling : List Char} (escaped : Spelling.wellSpelled spelling = true) (before : List Token)
    (read : List Char) (rest : List (Option Char)) :
    tokens? before (.inText read false false) (spelling.map some ++ some '"' :: rest) =
      string? (read.reverse ++ spelling) false >>= fun token => tokens? (token :: before) .between rest := by
  fun_induction Spelling.wellSpelled spelling generalizing read with
  | case1 =>
    rw [List.append_nil]
    rfl
  -- Four digits after a `u` are passed as plain characters.
  | case2 a b c d spelling ih =>
    rw [Bool.and_eq_true] at escaped
    have plain := fun x member => plain_of_hexDigit? (hexDigits_of_unit? escaped.1 x member)
    refine (passed_escape before read 'u' _).trans ((passed_plain plain before _ _).trans ?_)
    refine (ih escaped.2 _).trans ?_
    simp
  | case3 c spelling _ ih =>
    rw [Bool.and_eq_true] at escaped
    refine (passed_escape before read c _).trans ((ih escaped.2 _).trans ?_)
    simp
  | case4 c spelling _ _ ih =>
    simp only [Bool.and_eq_true, bne_iff_ne] at escaped
    have plain : ∀ x ∈ [c], x ≠ '"' ∧ x ≠ '\\' := by simpa using ⟨escaped.1.1.2, escaped.1.1.1⟩
    refine (passed_plain plain before read _).trans ((ih escaped.2 _).trans ?_)
    simp

theorem quoted {spelling : String} (escaped : Spelling.wellSpelled spelling.toList = true)
    (next : Scans chars tokens) :
    Scans ('"' :: (spelling.toList ++ '"' :: chars)) (.leaf (.text spelling) :: tokens) := by
  intro before rest stops
  have token : string? ([].reverse ++ spelling.toList) false = some (.leaf (.text spelling)) := by
    refine (if_pos escaped).trans ?_
    rw [if_neg (by decide), List.reverse_nil, List.nil_append, String.ofList_toList]
  have one : tokens? before .between (('"' :: (spelling.toList ++ '"' :: chars)).map some ++ rest) =
      tokens? (.leaf (.text spelling) :: before) .between (chars.map some ++ rest) := by
    have passed := passed_text escaped before [] (chars.map some ++ rest)
    rw [token] at passed
    rw [List.map_cons, List.map_append, List.map_cons, List.cons_append, List.append_assoc]
    exact passed
  rw [one, next _ _ stops, List.reverse_cons, List.append_assoc]
  rfl

end Scans

-- Characters lead from one state of the building to another.
def Leads (chars : List Char) (b last : Building) : Prop :=
  ∃ tokens, Scans chars tokens ∧ tokens.foldlM Building.step b = some last

-- What follows a value: it begins with a character that ends it.
def Follows (chars : List Char) : Prop := ∃ c more, chars = c :: more ∧ endsWord c = true

namespace Leads

variable {b next last : Building} {c : Char} {chars front back : List Char} {token : Token} {tree : Json}

theorem mark (starts : start? c = some ([token], .between)) (steps : b.step token = some next)
    (later : Leads chars next last) : Leads (c :: chars) b last := by
  obtain ⟨tokens, scans, builds⟩ := later
  refine ⟨token :: tokens, scans.mark starts, ?_⟩
  rw [List.foldlM_cons, steps]
  exact builds

theorem quoted {spelling : String} (escaped : Spelling.wellSpelled spelling.toList = true)
    (steps : b.step (.leaf (.text spelling)) = some next) (later : Leads chars next last) :
    Leads ('"' :: (spelling.toList ++ '"' :: chars)) b last := by
  obtain ⟨tokens, scans, builds⟩ := later
  refine ⟨.leaf (.text spelling) :: tokens, scans.quoted escaped, ?_⟩
  rw [List.foldlM_cons, steps]
  exact builds

theorem append (first : Leads front b next) (later : Leads back next last) (follows : Follows back) :
    Leads (front ++ back) b last := by
  obtain ⟨c, more, rfl, ends⟩ := follows
  obtain ⟨one, scans, builds⟩ := first
  obtain ⟨other, scansLater, buildsLater⟩ := later
  refine ⟨one ++ other, scans.append scansLater ends, ?_⟩
  rw [List.foldlM_append, builds]
  exact buildsLater

theorem single (starts : start? c = some ([token], .between)) (steps : b.step token = some last) :
    Leads [c] b last := mark starts steps ⟨[], .nil, rfl⟩

theorem blanks (blank : front.all isBlank = true) (later : Leads back b last) : Leads (front ++ back) b last := by
  obtain ⟨tokens, scans, builds⟩ := later
  exact ⟨tokens, scans.blanks blank, builds⟩

theorem parts {β : Type} (text : β → List Char) (state ended : List β → Building) {closing : List Char}
    (follows : Follows closing) (close : ∀ before, Leads closing (state before) (ended before)) {parts : List β}
    (each : ∀ part ∈ parts, ∀ before, Leads (',' :: text part) (state before) (state (part :: before)))
    (before : List β) :
    Leads (parts.flatMap (fun part => ',' :: text part) ++ closing) (state before) (ended (parts.reverse ++ before)) ∧
      Follows (parts.flatMap (fun part => ',' :: text part) ++ closing) := by
  induction parts generalizing before with
  | nil => exact ⟨close before, follows⟩
  | cons part rest ih =>
    obtain ⟨first, each⟩ := List.forall_mem_cons.mp each
    obtain ⟨later, follows⟩ := ih each (part :: before)
    rw [List.flatMap_cons, List.append_assoc, List.reverse_cons, List.append_assoc]
    exact ⟨(first before).append later follows, ',', _, rfl, rfl⟩

end Leads

theorem follows_closing {c : Char} {last : List Char} (blank : last.all isBlank = true) (ends : endsWord c = true) :
    Follows (last ++ [c]) := by
  cases last with
  | nil => exact ⟨c, [], rfl, ends⟩
  | cons d more =>
    rw [List.all_cons, Bool.and_eq_true] at blank
    refine ⟨d, more ++ [c], rfl, ?_⟩
    have kinds := blank.1
    simp only [isBlank, Bool.or_eq_true, beq_iff_eq] at kinds
    rcases kinds with ((rfl | rfl) | rfl) | rfl <;> rfl

inductive Awaits : Expecting → Prop where
  | value : Awaits .value
  | valueOrClose : Awaits .valueOrClose

-- Wherever a value is awaited, the characters lead to the place after it.
def Reads (chars : List Char) (tree : Json) : Prop := ∀ (outer : List Unclosed) (expecting : Expecting),
  Awaits expecting → Leads chars ⟨outer, expecting⟩ (Building.place tree outer)

def enclosed (opening closing : Char) (gap last : List Char) : List (List Char) → List Char
  | [] => [opening, closing]
  | first :: rest =>
    opening :: (gap ++ (first ++ (rest.flatMap (fun part => ',' :: (gap ++ part)) ++ (last ++ [closing]))))

def memberChars (space : List Char) (name : String) (value : List Char) : List Char :=
  '"' :: (name.toList ++ '"' :: ':' :: (space ++ value))

theorem reads_leaf {chars : List Char} {tree : Json} (scans : Scans chars [.leaf tree]) : Reads chars tree := by
  intro outer expecting awaits
  refine ⟨_, scans, ?_⟩
  cases awaits <;> rfl

section

variable {gap last : List Char} (blankGap : gap.all isBlank = true) (blankLast : last.all isBlank = true)

include blankGap blankLast

theorem reads_list (text : Json → List Char) {items : List Json} (each : ∀ item ∈ items, Reads (text item) item) :
    Reads (enclosed '[' ']' gap last (items.map text)) (.list items) := by
  intro outer expecting awaits
  have opened : Building.step ⟨outer, expecting⟩ .openList = some ⟨.list [] :: outer, .valueOrClose⟩ := by
    cases awaits <;> rfl
  cases items with
  | nil => exact .mark rfl opened (.single rfl rfl)
  | cons first rest =>
    obtain ⟨one, each⟩ := List.forall_mem_cons.mp each
    obtain ⟨later, follows⟩ := Leads.parts (fun item => gap ++ text item)
      (fun before => ⟨.list before :: outer, .commaOrClose⟩) (fun before => Building.place (.list before.reverse) outer)
      (follows_closing blankLast (by rfl : endsWord ']' = true)) (fun before => .blanks blankLast (.single rfl rfl))
      (fun item member before => .mark rfl rfl (.blanks blankGap (each item member _ _ .value))) [first]
    rw [List.reverse_append, List.reverse_reverse] at later
    rw [List.map_cons, enclosed, List.flatMap_map]
    exact .mark rfl opened (.blanks blankGap ((one _ _ .valueOrClose).append later follows))

omit blankGap blankLast in
theorem leads_member {space value : List Char} (blank : space.all isBlank = true) {m : String × Json}
    (escaped : Spelling.wellSpelled m.1.toList = true) (reads : Reads value m.2) {b : Building}
    {outer : List Unclosed} {before : List (String × Json)}
    (named : b.step (.leaf (.text m.1)) = some ⟨outer, .colon before m.1⟩) :
    Leads (memberChars space m.1 value) b ⟨.record (m :: before) "" :: outer, .commaOrClose⟩ :=
  .quoted escaped named (.mark rfl rfl (.blanks blank (reads _ _ .value)))

theorem reads_record {space : List Char} (blank : space.all isBlank = true) (text : Json → List Char)
    {members : List (String × Json)} (names : ∀ m ∈ members, Spelling.wellSpelled m.1.toList = true)
    (each : ∀ m ∈ members, Reads (text m.2) m.2) :
    Reads (enclosed '\x7b' '\x7d' gap last (members.map fun m => memberChars space m.1 (text m.2))) (.record members) := by
  intro outer expecting awaits
  have opened : Building.step ⟨outer, expecting⟩ .openRecord = some ⟨outer, .nameOrClose⟩ := by
    cases awaits <;> rfl
  cases members with
  | nil => exact .mark rfl opened (.single rfl rfl)
  | cons first rest =>
    obtain ⟨name, names⟩ := List.forall_mem_cons.mp names
    obtain ⟨one, each⟩ := List.forall_mem_cons.mp each
    have further : ∀ m ∈ rest, ∀ before, Leads (',' :: (gap ++ memberChars space m.1 (text m.2)))
        ⟨.record before "" :: outer, .commaOrClose⟩ ⟨.record (m :: before) "" :: outer, .commaOrClose⟩ := by
      intro m member before
      have comma : Building.step ⟨.record before "" :: outer, .commaOrClose⟩ .comma = some ⟨outer, .name before⟩ := rfl
      exact .mark rfl comma (.blanks blankGap (leads_member blank (names m member) (each m member) rfl))
    obtain ⟨later, follows⟩ := Leads.parts (fun m : String × Json => gap ++ memberChars space m.1 (text m.2))
      (fun before => ⟨.record before "" :: outer, .commaOrClose⟩)
      (fun before => Building.place (.record before.reverse) outer)
      (follows_closing blankLast (by rfl : endsWord '\x7d' = true)) (fun before => .blanks blankLast (.single rfl rfl))
      further [first]
    rw [List.reverse_append, List.reverse_reverse] at later
    rw [List.map_cons, enclosed, List.flatMap_map]
    exact .mark rfl opened (.blanks blankGap ((leads_member blank name one rfl).append later follows))

end

theorem toList_intercalate (separator first : String) (rest : List String) :
    (separator.intercalate (first :: rest)).toList =
      first.toList ++ rest.flatMap fun s => separator.toList ++ s.toList := by
  induction rest generalizing first with
  | nil => simp
  | cons second rest ih =>
    rw [String.intercalate_cons_cons, String.toList_append, String.toList_append, ih, List.flatMap_cons]
    simp

theorem compactItems_eq (items : List Json) : compactItems items = items.map compact := by
  induction items with
  | nil => rfl
  | cons item rest ih => rw [compactItems, ih, List.map_cons]

theorem indentedItems_eq (margin : String) (items : List Json) :
    indentedItems margin items = items.map (indented margin) := by
  induction items with
  | nil => rfl
  | cons item rest ih => rw [indentedItems, ih, List.map_cons]

theorem compactMembers_eq (members : List (String × Json)) :
    compactMembers members = members.map fun m => "\"" ++ m.1 ++ "\":" ++ compact m.2 := by
  induction members with
  | nil => rfl
  | cons m rest ih => rw [compactMembers, ih, List.map_cons]

theorem indentedMembers_eq (margin : String) (members : List (String × Json)) :
    indentedMembers margin members = members.map fun m => "\"" ++ m.1 ++ "\": " ++ indented margin m.2 := by
  induction members with
  | nil => rfl
  | cons m rest ih => rw [indentedMembers, ih, List.map_cons]

theorem toList_enclosed (opening closing : Char) (texts : List String) :
    (String.ofList [opening] ++ ",".intercalate texts ++ String.ofList [closing]).toList =
      enclosed opening closing [] [] (texts.map String.toList) := by
  cases texts with
  | nil => simp [enclosed]
  | cons first rest =>
    rw [String.toList_append, String.toList_append, toList_intercalate]
    simp [enclosed, List.flatMap_map]

theorem toList_block (margin : String) (opening closing : Char) (texts : List String) :
    (block margin (String.ofList [opening]) (String.ofList [closing]) texts).toList = enclosed opening closing
      ('\n' :: (margin ++ "  ").toList) ('\n' :: margin.toList) (texts.map String.toList) := by
  cases texts with
  | nil => simp [enclosed, block]
  | cons first rest =>
    simp only [block, List.map_cons, String.toList_append, toList_intercalate]
    simp [enclosed, List.flatMap_map]

theorem toList_compactList (items : List Json) : (compact (.list items)).toList =
    enclosed '[' ']' [] [] (items.map fun item => (compact item).toList) := by
  rw [compact, compactItems_eq]
  refine (toList_enclosed '[' ']' _).trans ?_
  rw [List.map_map]
  rfl

theorem toList_compactRecord (members : List (String × Json)) : (compact (.record members)).toList =
    enclosed '\x7b' '\x7d' [] [] (members.map fun m => memberChars [] m.1 (compact m.2).toList) := by
  rw [compact, compactMembers_eq]
  refine (toList_enclosed '\x7b' '\x7d' _).trans ?_
  rw [List.map_map]
  refine congrArg _ (List.map_congr_left fun m _ => ?_)
  simp [memberChars]

theorem toList_indentedList (margin : String) (items : List Json) : (indented margin (.list items)).toList =
    enclosed '[' ']' ('\n' :: (margin ++ "  ").toList) ('\n' :: margin.toList)
      (items.map fun item => (indented (margin ++ "  ") item).toList) := by
  rw [indented, indentedItems_eq]
  refine (toList_block margin '[' ']' _).trans ?_
  rw [List.map_map]
  rfl

theorem toList_indentedRecord (margin : String) (members : List (String × Json)) :
    (indented margin (.record members)).toList =
      enclosed '\x7b' '\x7d' ('\n' :: (margin ++ "  ").toList) ('\n' :: margin.toList)
        (members.map fun m => memberChars [' '] m.1 (indented (margin ++ "  ") m.2).toList) := by
  rw [indented, indentedMembers_eq]
  refine (toList_block margin '\x7b' '\x7d' _).trans ?_
  rw [List.map_map]
  refine congrArg _ (List.map_congr_left fun m _ => ?_)
  simp [memberChars]

theorem toList_compactText (spelling : String) :
    (compact (.text spelling)).toList = '"' :: (spelling.toList ++ '"' :: []) := by
  rw [compact, String.toList_append, String.toList_append]
  rfl

theorem Spelled.compact {tree : Json} (spelled : Spelled tree) : Reads tree.compact.toList tree := by
  induction spelled with
  | null => exact reads_leaf .word_null
  | bool value => cases value with
    | true => exact reads_leaf .word_true
    | false => exact reads_leaf .word_false
  | number grammatical => exact reads_leaf (.number grammatical)
  | text escaped =>
    rw [toList_compactText]
    exact reads_leaf (.quoted escaped .nil)
  | list _ each =>
    rw [toList_compactList]
    exact reads_list rfl rfl (fun item => item.compact.toList) each
  | record names _ each =>
    rw [toList_compactRecord]
    exact reads_record rfl rfl rfl (fun value => value.compact.toList) names each

-- The margin is blank, so are the wider ones further inside.
theorem Spelled.indented {tree : Json} (spelled : Spelled tree) {margin : String}
    (blank : margin.toList.all isBlank = true) : Reads (tree.indented margin).toList tree := by
  have wider : ∀ {margin : String}, margin.toList.all isBlank = true →
      (margin ++ "  ").toList.all isBlank = true ∧ ('\n' :: (margin ++ "  ").toList).all isBlank = true ∧
        ('\n' :: margin.toList).all isBlank = true := by
    intro margin blank
    have inner : (margin ++ "  ").toList.all isBlank = true := by
      rw [String.toList_append, List.all_append, blank]
      rfl
    rw [List.all_cons, List.all_cons, inner, blank]
    exact ⟨rfl, rfl, rfl⟩
  induction spelled generalizing margin with
  | null => exact Spelled.null.compact
  | bool value => exact (Spelled.bool value).compact
  | number grammatical => exact (Spelled.number grammatical).compact
  | text escaped => exact (Spelled.text escaped).compact
  | list _ each =>
    obtain ⟨inner, gap, last⟩ := wider blank
    rw [toList_indentedList]
    exact reads_list gap last (fun item => (item.indented _).toList) fun item member => each item member inner
  | record names _ each =>
    obtain ⟨inner, gap, last⟩ := wider blank
    rw [toList_indentedRecord]
    exact reads_record gap last rfl (fun value => (value.indented _).toList) names fun m member => each m member inner

theorem Reads.ofCharacters? {chars : List Char} {tree : Json} (reads : Reads chars tree) :
    ofCharacters? (chars.map some) = some tree := by
  obtain ⟨tokens, scans, builds⟩ := reads [] .value .value
  have scanned : tokens? [] .between (chars.map some) = some tokens := by
    have whole := scans [] [] .done
    rw [List.append_nil, List.append_nil] at whole
    rw [whole, tokens?_end]
    exact congrArg some (List.reverse_reverse tokens)
  have built : tokens.foldlM Building.step {} = some ⟨[], .nothing tree⟩ := builds
  unfold Json.ofCharacters?
  rw [scanned, Option.bind_eq_bind, Option.bind_some, ofTokens?, built]
  rfl

theorem ofCharacters?_compact {tree : Json} (spelled : Spelled tree) :
    ofCharacters? (Wire.characters (Wire.utf8 tree.compact)) = some tree := by
  rw [Wire.characters_utf8]
  exact spelled.compact.ofCharacters?

theorem ofString?_pretty {tree : Json} (spelled : Spelled tree) : ofString? tree.pretty = some tree :=
  (spelled.indented rfl).ofCharacters?

end Json

end RoomLedger
