import Mathlib
import RoomLedger.Proofs.BinaryReading

namespace RoomLedger

open Std

-- Values that are kept apart from the list that they come from: some of its items, and all of them in their
-- places if the list is in order.
structure Gathers {β γ : Type} (gather : List β → γ) (items : γ → List β) (inOrder : List β → Bool) : Prop where
  lighter : ∀ (weight : β → Nat) (given : List β), ((items (gather given)).map weight).sum ≤ (given.map weight).sum
  listed : ∀ given, ∀ b ∈ items (gather given), b ∈ given
  whole : ∀ given, items (gather given) = given ↔ inOrder given = true
  again : ∀ c, gather (items c) = c

theorem Gathers.fewer {β γ : Type} {gather : List β → γ} {items : γ → List β} {inOrder : List β → Bool}
    (gathers : Gathers gather items inOrder) (given : List β) : (items (gather given)).length ≤ given.length := by
  have counted := gathers.lighter (fun _ => 1) given
  rwa [List.map_const', List.map_const', List.sum_replicate_nat, List.sum_replicate_nat, Nat.mul_one,
    Nat.mul_one] at counted

namespace SortedMap

variable {κ α : Type} [Ord κ]

theorem weight_insertEntry (weight : κ × α → Nat) (key : κ) (value : α) (entries : List (κ × α)) :
    ((insertEntry key value entries).map weight).sum ≤ weight (key, value) + (entries.map weight).sum := by
  induction entries with
  | nil => exact Nat.le_refl _
  | cons entry rest ih =>
    rw [insertEntry]
    split <;> simp only [List.map_cons, List.sum_cons] <;> omega

def ascends (entries : List (κ × α)) : Bool := decide (entries.Pairwise fun a b => compare a.1 b.1 = .lt)

variable [TransOrd κ] [LawfulEqOrd κ]

theorem weight_foldl_insert (weight : κ × α → Nat) (entries : List (κ × α)) (m : SortedMap κ α) :
    ((entries.foldl (fun m e => m.insert e.1 e.2) m).entries.map weight).sum ≤
      (m.entries.map weight).sum + (entries.map weight).sum := by
  induction entries generalizing m with
  | nil => exact Nat.le_refl _
  | cons e rest ih =>
    have later := ih (m.insert e.1 e.2)
    have first : ((m.insert e.1 e.2).entries.map weight).sum ≤ weight e + (m.entries.map weight).sum :=
      weight_insertEntry weight e.1 e.2 m.entries
    rw [List.foldl_cons, List.map_cons, List.sum_cons]
    omega

theorem mem_foldl_insert {e : κ × α} (entries : List (κ × α)) (m : SortedMap κ α)
    (member : e ∈ (entries.foldl (fun m e => m.insert e.1 e.2) m).entries) : e ∈ m.entries ∨ e ∈ entries := by
  induction entries generalizing m with
  | nil => exact .inl member
  | cons entry rest ih =>
    rcases ih (m.insert entry.1 entry.2) member with inserted | later
    · rcases mem_insertEntry inserted with rfl | before
      · exact .inr (List.mem_cons_self ..)
      · exact .inl before
    · exact .inr (List.mem_cons_of_mem _ later)

theorem gathers : Gathers (ofList (κ := κ) (α := α)) entries ascends where
  lighter weight given := by
    have bound := weight_foldl_insert weight given empty
    rwa [show (empty : SortedMap κ α).entries = [] from rfl, List.map_nil, List.sum_nil, Nat.zero_add] at bound
  listed given e member := (mem_foldl_insert given empty member).resolve_left List.not_mem_nil
  whole given := by
    rw [ascends, decide_eq_true_iff]
    constructor
    · intro same
      rw [← same]
      exact (ofList given).ascending
    · intro ascending
      exact congrArg entries (ofList_entries ⟨given, ascending⟩)
  again := ofList_entries

end SortedMap

namespace SortedSet

variable {κ : Type} [Ord κ]

def ascends (keys : List κ) : Bool := decide (keys.Pairwise fun a b => compare a b = .lt)

variable [TransOrd κ] [LawfulEqOrd κ]

theorem map_foldl_insert (keys : List κ) (s : SortedSet κ) :
    (keys.foldl insert s).map = (keys.map fun k => (k, ())).foldl (fun m e => m.insert e.1 e.2) s.map := by
  induction keys generalizing s with
  | nil => rfl
  | cons key rest ih => exact ih (s.insert key)

theorem toList_ofList (keys : List κ) :
    (ofList keys).toList = (SortedMap.ofList (keys.map fun k => (k, ()))).entries.map (·.1) :=
  congrArg SortedMap.keys (map_foldl_insert keys empty)

theorem gathers : Gathers (ofList (κ := κ)) toList ascends where
  lighter weight given := by
    have bound := SortedMap.gathers.lighter (fun e => weight e.1) (given.map fun k => (k, ()))
    rw [List.map_map] at bound
    rw [toList_ofList, List.map_map]
    exact bound
  listed given k member := by
    rw [toList_ofList, List.mem_map] at member
    obtain ⟨e, entry, rfl⟩ := member
    obtain ⟨k, given, rfl⟩ := List.mem_map.mp (SortedMap.gathers.listed _ e entry)
    exact given
  whole given := by
    rw [ascends, decide_eq_true_iff]
    constructor
    · intro same
      rw [← same]
      exact (ofList given).ascending_toList
    · intro ascending
      have keyed : SortedMap.ascends (given.map fun k => (k, ())) = true := by
        rw [SortedMap.ascends, decide_eq_true_iff, List.pairwise_map]
        exact ascending
      rw [toList_ofList, (SortedMap.gathers.whole _).mpr keyed, List.map_map]
      exact List.map_id given
  again := ofList_toList

end SortedSet

namespace Wire

variable {α β γ : Type}

theorem bind_eq_ok {first : Reader α} {next : α → Reader β} {bytes rest : List UInt8} {b : β}
    (taken : (first >>= next) bytes = .ok (b, rest)) :
    ∃ a mid, first bytes = .ok (a, mid) ∧ next a mid = .ok (b, rest) := by
  change first bytes >>= (fun pair => next pair.1 pair.2) = _ at taken
  cases made : first bytes with
  | error fault =>
    rw [made] at taken
    cases taken
  | ok pair =>
    rw [made] at taken
    exact ⟨pair.1, pair.2, rfl, taken⟩

theorem bind_of_ok {first : Reader α} {next : α → Reader β} {bytes mid : List UInt8} {a : α}
    (taken : first bytes = .ok (a, mid)) : (first >>= next) bytes = next a mid := by
  change first bytes >>= (fun pair => next pair.1 pair.2) = _
  rw [taken]
  rfl

structure Condenses (written used : List UInt8) (sorted : Bool) : Prop where
  shrinks : written.length ≤ used.length
  same : written = used ↔ sorted = true

namespace Condenses

theorem refl (bytes : List UInt8) : Condenses bytes bytes true := ⟨Nat.le_refl _, iff_of_true rfl rfl⟩

-- Each part shrinks, so that the whole is what it was only if each part is.
theorem append {front back used after : List UInt8} {one other : Bool} (first : Condenses front used one)
    (later : Condenses back after other) : Condenses (front ++ back) (used ++ after) (one && other) := by
  refine ⟨?_, ?_⟩
  · rw [List.length_append, List.length_append]
    exact Nat.add_le_add first.shrinks later.shrinks
  · rw [Bool.and_eq_true, ← first.same, ← later.same]
    constructor
    · intro same
      have lengths := congrArg List.length same
      rw [List.length_append, List.length_append] at lengths
      have one := first.shrinks
      have other := later.shrinks
      exact List.append_inj same (by omega)
    · rintro ⟨rfl, rfl⟩
      rfl

end Condenses

-- What is read takes some bytes from the front. `orderly` passes over the same bytes and answers whether every
-- map and set in them has its keys in strictly ascending order.
def Normalizes (read : Reader α) (write : α → List UInt8) (orderly : Reader Bool) : Prop :=
  ∀ bytes a rest, read bytes = .ok (a, rest) → ∃ used sorted, bytes = used ++ rest ∧
    orderly bytes = .ok (sorted, rest) ∧ Condenses (write a) used sorted ∧ Reads read (write a) a

-- A form without maps and sets is read in one way only.
def Exact (read : Reader α) (write : α → List UInt8) : Prop :=
  ∀ bytes a rest, read bytes = .ok (a, rest) → bytes = write a ++ rest ∧ Reads read (write a) a

def passing (read : Reader α) : Reader Bool := do
  let _ ← read
  return true

def both (first later : Reader Bool) : Reader Bool := do
  return (← first) && (← later)

def each (orderly : Reader Bool) : Nat → Reader Bool
  | 0 => return true
  | count + 1 => both orderly (each orderly count)

namespace Exact

variable {read : Reader α} {write : α → List UInt8}

theorem normalizes (exact : Exact read write) : Normalizes read write (passing read) := by
  intro bytes a rest taken
  obtain ⟨whole, reads⟩ := exact bytes a rest taken
  exact ⟨write a, true, whole, bind_of_ok taken, .refl _, reads⟩

theorem map {write' : β → List UInt8} (exact : Exact read write) (f : α → β) (same : ∀ a, write' (f a) = write a) :
    Exact (do return f (← read)) write' := by
  intro bytes b rest taken
  obtain ⟨a, mid, made, given⟩ := bind_eq_ok taken
  cases given
  obtain ⟨whole, reads⟩ := exact bytes a rest made
  rw [same]
  exact ⟨whole, reads.map f⟩

-- What is read first says how the rest is read.
theorem after (exact : Exact read write) {next : α → Reader β} {orderly : α → Reader Bool}
    {write' : β → List UInt8} (later : ∀ a bytes b rest, next a bytes = .ok (b, rest) →
      ∃ body used sorted, write' b = write a ++ body ∧ bytes = used ++ rest ∧
        orderly a bytes = .ok (sorted, rest) ∧ Condenses body used sorted ∧ Reads (next a) body b) :
    Normalizes (read >>= next) write' (read >>= orderly) := by
  intro bytes b rest taken
  obtain ⟨a, mid, one, other⟩ := bind_eq_ok taken
  obtain ⟨rfl, reads⟩ := exact bytes a mid one
  obtain ⟨body, used, sorted, form, rfl, passed, condenses, reads'⟩ := later a mid b rest other
  rw [form]
  refine ⟨write a ++ used, sorted, (List.append_assoc ..).symm, ?_, ?_, reads.bind reads'⟩
  · rw [bind_of_ok one]
    exact passed
  · exact (Condenses.refl _).append condenses

end Exact

namespace Normalizes

variable {read : Reader α} {write : α → List UInt8} {orderly : Reader Bool}

theorem map {write' : β → List UInt8} (normalizes : Normalizes read write orderly) (f : α → β)
    (same : ∀ a, write' (f a) = write a) : Normalizes (do return f (← read)) write' orderly := by
  intro bytes b rest taken
  obtain ⟨a, mid, made, given⟩ := bind_eq_ok taken
  cases given
  obtain ⟨used, sorted, whole, passed, condenses, reads⟩ := normalizes bytes a rest made
  rw [← same] at condenses reads
  exact ⟨used, sorted, whole, passed, condenses, reads.map f⟩

theorem pair {later : Reader β} {write' : β → List UInt8} {orderly' : Reader Bool}
    (first : Normalizes read write orderly) (second : Normalizes later write' orderly') :
    Normalizes (do return (← read, ← later)) (fun p => write p.1 ++ write' p.2) (both orderly orderly') := by
  intro bytes p rest taken
  obtain ⟨a, mid, one, taken⟩ := bind_eq_ok taken
  obtain ⟨b, last, other, given⟩ := bind_eq_ok taken
  cases given
  obtain ⟨used, sorted, rfl, passed, condenses, reads⟩ := first bytes a mid one
  obtain ⟨used', sorted', rfl, passed', condenses', reads'⟩ := second mid b rest other
  refine ⟨used ++ used', sorted && sorted', (List.append_assoc ..).symm, ?_, condenses.append condenses',
    reads.bind (reads'.map _)⟩
  rw [both, bind_of_ok passed, bind_of_ok passed']
  rfl

-- A count, and as many items: the items are read one by one, and each could be read by itself.
theorem many (normalizes : Normalizes read write orderly) {count : Nat} {bytes rest : List UInt8} {items : List α}
    (taken : readMany read count bytes = .ok (items, rest)) :
    items.length = count ∧ (∀ a ∈ items, Reads read (write a) a) ∧ ∃ used sorted, bytes = used ++ rest ∧
      each orderly count bytes = .ok (sorted, rest) ∧ Condenses (items.flatMap write) used sorted := by
  induction count generalizing bytes items with
  | zero =>
    cases taken
    exact ⟨rfl, fun a member => (nomatch member), [], true, rfl, rfl, .refl []⟩
  | succ count ih =>
    obtain ⟨a, mid, one, taken⟩ := bind_eq_ok taken
    obtain ⟨more, last, others, given⟩ := bind_eq_ok taken
    cases given
    obtain ⟨used, sorted, rfl, passed, condenses, reads⟩ := normalizes bytes a mid one
    obtain ⟨length, each, used', sorted', rfl, passed', condenses'⟩ := ih others
    refine ⟨congrArg (· + 1) length, List.forall_mem_cons.mpr ⟨reads, each⟩, used ++ used', sorted && sorted',
      (List.append_assoc ..).symm, ?_, ?_⟩
    · rw [Wire.each, both, bind_of_ok passed, bind_of_ok passed']
      rfl
    · rw [List.flatMap_cons]
      exact condenses.append condenses'

end Normalizes

theorem ofLowBytes_lt (bytes : List UInt8) : ofLowBytes bytes < 256 ^ bytes.length := by
  induction bytes with
  | nil => exact Nat.one_pos
  | cons b rest ih =>
    have small : b.toNat < 256 := b.toNat_lt
    rw [ofLowBytes, List.length_cons, Nat.pow_succ']
    omega

theorem lowBytes_ofLowBytes (bytes : List UInt8) : lowBytes bytes.length (ofLowBytes bytes) = bytes := by
  induction bytes with
  | nil => rfl
  | cons b rest ih =>
    have small : b.toNat < 256 := b.toNat_lt
    have low : (b.toNat + 256 * ofLowBytes rest) % 256 = b.toNat := by omega
    have high : (b.toNat + 256 * ofLowBytes rest) / 256 = ofLowBytes rest := by omega
    rw [ofLowBytes, List.length_cons, lowBytes, high, ih]
    refine congrArg (· :: rest) (UInt8.toNat_inj.mp ?_)
    rw [UInt8.toNat_ofNat']
    exact low

theorem take_eq_ok {count : Nat} {bytes taken rest : List UInt8} (run : take count bytes = .ok (taken, rest)) :
    bytes = taken ++ rest ∧ taken.length = count := by
  unfold take at run
  rw [List.splitAt_eq] at run
  dsimp only at run
  split at run
  · rename_i long
    cases run
    exact ⟨(List.take_append_drop count bytes).symm, long⟩
  · cases run

theorem readNat_eq_ok {count n : Nat} {bytes rest : List UInt8} (run : readNat count bytes = .ok (n, rest)) :
    bytes = lowBytes count n ++ rest ∧ n < 256 ^ count := by
  obtain ⟨taken, mid, made, given⟩ := bind_eq_ok run
  cases given
  obtain ⟨rfl, rfl⟩ := take_eq_ok made
  rw [lowBytes_ofLowBytes]
  exact ⟨rfl, ofLowBytes_lt taken⟩

theorem exact_nat (count : Nat) : Exact (readNat count) (lowBytes count) := by
  intro bytes n rest taken
  obtain ⟨whole, room⟩ := readNat_eq_ok taken
  exact ⟨whole, reads_nat room⟩

theorem exact_byte : Exact (read (α := UInt8)) write := by
  intro bytes b rest taken
  cases bytes with
  | nil => cases taken
  | cons first later =>
    cases taken
    exact ⟨rfl, fun _ => rfl⟩

theorem exact_uint32 : Exact (read (α := UInt32)) write := by
  intro bytes n rest taken
  obtain ⟨k, mid, made, given⟩ := bind_eq_ok taken
  cases given
  obtain ⟨whole, room⟩ := readNat_eq_ok made
  have same : (UInt32.ofNat k).toNat = k := UInt32.toNat_ofNat_of_lt' room
  have form : write (UInt32.ofNat k) = lowBytes 4 k := congrArg (lowBytes 4) same
  rw [form]
  exact ⟨whole, (reads_nat room).map UInt32.ofNat⟩

theorem exact_uint64 : Exact (read (α := UInt64)) write := by
  intro bytes n rest taken
  obtain ⟨k, mid, made, given⟩ := bind_eq_ok taken
  cases given
  obtain ⟨whole, room⟩ := readNat_eq_ok made
  have same : (UInt64.ofNat k).toNat = k := UInt64.toNat_ofNat_of_lt' room
  have form : write (UInt64.ofNat k) = lowBytes 8 k := congrArg (lowBytes 8) same
  rw [form]
  exact ⟨whole, (reads_nat room).map UInt64.ofNat⟩

theorem exact_int64 : Exact (read (α := Int64)) write :=
  exact_uint64.map UInt64.toInt64 fun _ => rfl

theorem exact_text : Exact (read (α := String)) write := by
  intro bytes s rest taken
  obtain ⟨count, mid, counted, taken⟩ := bind_eq_ok taken
  obtain ⟨text, last, made, given⟩ := bind_eq_ok taken
  obtain ⟨rfl, room⟩ := readNat_eq_ok counted
  obtain ⟨rfl, rfl⟩ := take_eq_ok made
  cases decoded : ofUtf8? text with
  | none =>
    rw [decoded] at given
    cases given
  | some known =>
    rw [decoded] at given
    cases given
    cases ofUtf8?_eq_some decoded
    exact ⟨(List.append_assoc ..).symm, Faithful.reads s (decide_eq_true room)⟩

theorem exact_objectId : Exact (read (α := ObjectId)) write :=
  exact_uint64.map ObjectId.unpack fun word => congrArg write (ObjectId.pack_unpack word)

theorem exact_recordId (k : Kind) : Exact (read (α := RecordId k)) write :=
  (exact_nat 8).map RecordId.mk fun _ => rfl

end Wire

-- Values that may be read from other bytes than their form.
class Lenient (α : Type) [Wire α] where
  orderly : Wire.Reader Bool
  normalizes : Wire.Normalizes (Wire.read (α := α)) Wire.write orderly

namespace Lenient

variable {α β γ κ : Type}

open Wire

@[reducible] def ofExact [Wire α] (exact : Exact (read (α := α)) write) : Lenient α :=
  ⟨passing (read (α := α)), exact.normalizes⟩

instance : Lenient UInt32 := .ofExact exact_uint32
instance : Lenient Int64 := .ofExact exact_int64
instance : Lenient String := .ofExact exact_text
instance : Lenient ObjectId := .ofExact exact_objectId
instance {k : Kind} : Lenient (RecordId k) := .ofExact (exact_recordId k)
instance : Lenient Timestamp := .ofExact (exact_uint32.map Timestamp.mk fun _ => rfl)

instance [Wire α] [Lenient α] : Lenient (Option α) where
  orderly := do
    match ← read (α := UInt8) with
    | 0 => return true
    | _ => orderly α
  normalizes := by
    refine exact_byte.after fun tag bytes a? rest taken => ?_
    split at taken
    · cases taken
      exact ⟨[], [], true, rfl, rfl, rfl, .refl [], .pure none⟩
    · obtain ⟨a, last, made, given⟩ := bind_eq_ok taken
      cases given
      obtain ⟨used, sorted, rfl, passed, condenses, reads⟩ := normalizes bytes a rest made
      exact ⟨write a, used, sorted, rfl, rfl, passed, condenses, reads.map some⟩
    · cases taken

instance [Wire α] [Wire β] [Lenient α] [Lenient β] : Lenient (α × β) where
  orderly := both (orderly α) (orderly β)
  normalizes := normalizes.pair normalizes

instance [Wire α] [Lenient α] : Lenient (List α) where
  orderly := do each (orderly α) (← readCount)
  normalizes bytes items rest taken := by
    obtain ⟨count, mid, counted, several⟩ := bind_eq_ok taken
    obtain ⟨rfl, room⟩ := readNat_eq_ok counted
    obtain ⟨rfl, alone, used, sorted, rfl, passed, condenses⟩ := normalizes.many several
    refine ⟨writeCount items.length ++ used, sorted, (List.append_assoc ..).symm, ?_,
      (Condenses.refl _).append condenses, (reads_count room).bind (reads_many alone)⟩
    rw [bind_of_ok counted]
    exact passed

theorem length_write_list [Wire β] (items : List β) :
    (write items).length = 8 + (items.map fun b => (write b).length).sum := by
  change (writeCount items.length ++ items.flatMap write).length = _
  rw [List.length_append, List.length_flatMap, writeCount, length_lowBytes]

-- The items are passed over, and then looked at once more for their order.
def gathered [Wire β] [Lenient β] (inOrder : List β → Bool) : Reader Bool := fun bytes => do
  let (sorted, rest) ← orderly (List β) bytes
  let (items, _) ← read (α := List β) bytes
  return (sorted && inOrder items, rest)

theorem gathers_normalizes [Wire β] [Lenient β] {gather : List β → γ} {items : γ → List β} {inOrder : List β → Bool}
    (gathers : Gathers gather items inOrder) :
    Normalizes (do return gather (← read)) (fun c => write (items c)) (gathered inOrder) := by
  intro bytes c rest taken
  obtain ⟨given, last, made, whole⟩ := bind_eq_ok taken
  cases whole
  obtain ⟨used, sorted, rfl, passed, condenses, reads⟩ := normalizes bytes given rest made
  have alone : Reads (read (α := List β)) (write (items (gather given))) (items (gather given)) := by
    obtain ⟨count, mid, counted, several⟩ := bind_eq_ok made
    obtain ⟨-, room⟩ := readNat_eq_ok counted
    obtain ⟨rfl, alone, -⟩ := normalizes.many several
    have fewer := gathers.fewer given
    exact (reads_count (Nat.lt_of_le_of_lt fewer room)).bind
      (reads_many fun b member => alone b (gathers.listed given b member))
  have again := alone.map gather
  rw [gathers.again] at again
  refine ⟨used, sorted && inOrder given, rfl, ?_, ⟨?_, ?_⟩, again⟩
  · rw [gathered, passed, made]
    rfl
  · have lighter := gathers.lighter (fun b => (write b).length) given
    have shrinks := condenses.shrinks
    change (write (items (gather given))).length ≤ used.length
    rw [length_write_list] at shrinks ⊢
    omega
  · change write (items (gather given)) = used ↔ _
    rw [Bool.and_eq_true, ← condenses.same, ← gathers.whole given]
    constructor
    · intro same
      -- The same bytes are read as what is kept and as what was given.
      have kept := alone rest
      rw [same, made] at kept
      injection kept with pair
      have whole : items (gather given) = given := (congrArg Prod.fst pair).symm
      rw [whole] at same
      exact ⟨same, whole⟩
    · rintro ⟨same, whole⟩
      rw [whole, same]

instance [Ord κ] [TransOrd κ] [LawfulEqOrd κ] [Wire κ] [Wire α] [Lenient κ] [Lenient α] : Lenient (SortedMap κ α) where
  orderly := gathered SortedMap.ascends
  normalizes := gathers_normalizes SortedMap.gathers

instance [Ord κ] [TransOrd κ] [LawfulEqOrd κ] [Wire κ] [Lenient κ] : Lenient (SortedSet κ) where
  orderly := gathered SortedSet.ascends
  normalizes := gathers_normalizes SortedSet.gathers

instance : Lenient LocalizedName where
  orderly := orderly (SortedMap String String)
  normalizes := normalizes.map LocalizedName.mk fun _ => rfl

end Lenient

end RoomLedger
