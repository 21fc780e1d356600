import RoomLedger.Proofs.RecordLookups

namespace RoomLedger

open Std

def ObjectId.Before (i j : ObjectId) : Prop :=
  i.space < j.space ∨ i.space = j.space ∧ (i.type < j.type ∨ i.type = j.type ∧ i.number < j.number)

-- The order of keys, written down on its own: numbers before texts before ids.
inductive KeyPart.Before : KeyPart → KeyPart → Prop where
  | numbers {m n : Nat} (less : m < n) : KeyPart.Before (.number m) (.number n)
  | texts {s t : String} (less : s < t) : KeyPart.Before (.text s) (.text t)
  | ids {i j : ObjectId} (less : i.Before j) : KeyPart.Before (.id i) (.id j)
  | numberText {n : Nat} {s : String} : KeyPart.Before (.number n) (.text s)
  | numberId {n : Nat} {i : ObjectId} : KeyPart.Before (.number n) (.id i)
  | textId {s : String} {i : ObjectId} : KeyPart.Before (.text s) (.id i)

-- The first part that differs decides; a key comes before those that extend it.
def Key.Before : Key → Key → Prop := List.Lex KeyPart.Before

theorem ObjectId.compare_eq_lt {i j : ObjectId} : compare i j = .lt ↔ i.Before j := by
  change compare i.parts j.parts = .lt ↔ _
  simp only [parts, List.compare_cons_cons, List.compare_nil_nil, Ordering.then_eq_lt, Nat.compare_eq_lt,
    Nat.compare_eq_eq, Before, UInt8.lt_iff_toNat_lt, UInt8.toNat_inj, reduceCtorEq, and_false, or_false]

theorem compare_text_eq_lt {s t : String} : compare s t = .lt ↔ s < t := by
  change compareOfLessAndEq s t = .lt ↔ _
  unfold compareOfLessAndEq
  by_cases less : s < t
  · simp [less]
  · by_cases same : s = t <;> simp [less, same]

namespace KeyPart

theorem compare_number (m n : Nat) : compare (number m) (number n) = compare m n := by
  change (compare m n).then .eq = _
  exact Ordering.then_eq

theorem compare_text (s t : String) : compare (text s) (text t) = compare s t := by
  change (compare s t).then .eq = _
  exact Ordering.then_eq

theorem compare_id (i j : ObjectId) : compare (KeyPart.id i) (KeyPart.id j) = compare i j := rfl

theorem compare_eq_lt {a b : KeyPart} : compare a b = .lt ↔ a.Before b := by
  cases a with
  | number m =>
    cases b with
    | number n =>
      rw [compare_number, Nat.compare_eq_lt]
      exact ⟨.numbers, fun | .numbers less => less⟩
    | text t => exact ⟨fun _ => .numberText, fun _ => rfl⟩
    | id j => exact ⟨fun _ => .numberId, fun _ => rfl⟩
  | text s =>
    cases b with
    | number n => exact ⟨nofun, nofun⟩
    | text t =>
      rw [compare_text, compare_text_eq_lt]
      exact ⟨.texts, fun | .texts less => less⟩
    | id j => exact ⟨fun _ => .textId, fun _ => rfl⟩
  | id i =>
    cases b with
    | number n => exact ⟨nofun, nofun⟩
    | text t => exact ⟨nofun, nofun⟩
    | id j =>
      rw [compare_id, ObjectId.compare_eq_lt]
      exact ⟨.ids, fun | .ids less => less⟩

end KeyPart

namespace Key

theorem compare_eq_lt {a b : Key} : compare a b = .lt ↔ a.Before b := by
  induction a generalizing b with
  | nil => cases b <;> simp [Before]
  | cons first a ih =>
    cases b with
    | nil => simp [Before]
    | cons second b =>
      rw [List.compare_cons_cons, Ordering.then_eq_lt, KeyPart.compare_eq_lt, LawfulEqOrd.compare_eq_iff_eq, ih]
      constructor
      · intro given
        rcases given with less | ⟨rfl, less⟩
        · exact .rel less
        · exact .cons less
      · intro less
        cases less with
        | rel less => exact .inl less
        | cons less => exact .inr ⟨rfl, less⟩

theorem not_before_self (key : Key) : ¬ key.Before key := by
  rw [← compare_eq_lt, ReflOrd.compare_self]
  exact Ordering.noConfusion

end Key

def Index.Precedes {α : Type} [Stored α] (index : Index α) (row other : α) : Prop :=
  Key.Before (index.key row) (index.key other) ∨
    index.key row = index.key other ∧ Stored.number row < Stored.number other

namespace Table

variable {α : Type} [Stored α] {t : Table α} {name : String} {index : Index α} {key : Key} {rows : List α}

theorem mem_values (coherent : t.Coherent) {row : α} :
    row ∈ t.rows.values ↔ t.get? (Stored.number row) = some row := by
  rw [SortedMap.mem_values_iff]
  constructor
  · intro given
    obtain ⟨n, found⟩ := given
    rwa [coherent.numbered n row found]
  · exact fun found => ⟨_, found⟩

theorem ascending_values (coherent : t.Coherent) :
    t.rows.values.Pairwise fun row other => Stored.number row < Stored.number other := by
  refine List.pairwise_map.mpr (List.Pairwise.imp_of_mem ?_ t.rows.ascending)
  intro a b listed beside before
  rw [coherent.numbered _ _ ((t.rows.mem_entries_iff a.1 a.2).mp listed),
    coherent.numbered _ _ ((t.rows.mem_entries_iff b.1 b.2).mp beside)]
  exact Nat.compare_eq_lt.mp before

-- The records that are as asked, each of them once, in the order that is asked for.
structure Lists (t : Table α) (fits : α → Prop) [DecidablePred fits] (precedes : α → α → Prop) (rows : List α) :
    Prop where
  naive : rows.Perm (t.rows.values.filter fun row => fits row)
  once : rows.Nodup
  ordered : rows.Pairwise precedes

theorem Lists.of_mem (coherent : t.Coherent) {fits : α → Prop} [DecidablePred fits] {precedes : α → α → Prop}
    (once : (rows.map Stored.number).Nodup)
    (member : ∀ row, row ∈ rows ↔ t.get? (Stored.number row) = some row ∧ fits row)
    (ordered : rows.Pairwise precedes) : t.Lists fits precedes rows := by
  have distinct : rows.Nodup :=
    List.Pairwise.of_map _ (fun _ _ different same => different (congrArg _ same)) once
  have values : t.rows.values.Nodup := by
    apply (ascending_values coherent).imp
    intro row other less same
    rw [same] at less
    exact Nat.lt_irrefl _ less
  refine ⟨(List.perm_ext_iff_of_nodup distinct (values.filter _)).mpr fun row => ?_, distinct, ordered⟩
  rw [member, List.mem_filter, mem_values coherent, decide_eq_true_eq]

theorem startingWith_ordered (coherent : t.Coherent) (declared : Declared name index)
    (run : t.startingWith name key = .ok rows) : rows.Pairwise index.Precedes := by
  unfold startingWith at run
  rw [indexed_eq coherent declared] at run
  cases run
  simp only [scan_start]
  refine List.pairwise_filterMap.mpr (((listing index t.rows).ascending_toList.filter _).imp_of_mem ?_)
  intro e f listed beside before row found other found'
  have keyed : ∀ e ∈ (listing index t.rows).toList.filter (key.isPrefixOf ·.key), ∀ row,
      t.get? e.number = some row → index.key row = e.key ∧ Stored.number row = e.number := by
    intro e listed row found
    obtain ⟨listed, -⟩ := List.mem_filter.mp listed
    rw [SortedSet.mem_toList_iff, contains_listing] at listed
    obtain ⟨same, stored, keyed⟩ := listed
    cases stored.symm.trans found
    exact ⟨keyed, coherent.numbered _ _ found⟩
  obtain ⟨left, number⟩ := keyed e listed row found
  obtain ⟨right, number'⟩ := keyed f beside other found'
  rw [Index.Precedes, left, right, number, number']
  rwa [compare_entry, Ordering.then_eq_lt, Key.compare_eq_lt, LawfulEqOrd.compare_eq_iff_eq,
    Nat.compare_eq_lt] at before

theorem startingWith_lists (coherent : t.Coherent) (declared : Declared name index) (start : Key) :
    ∃ rows, t.startingWith name start = .ok rows ∧
      t.Lists (fun row => start <+: index.key row) index.Precedes rows := by
  obtain ⟨rows, run, once, member⟩ := startingWith_spec coherent declared start
  refine ⟨rows, run, .of_mem coherent once (fun row => ?_) (startingWith_ordered coherent declared run)⟩
  rw [member, List.isPrefixOf_iff_prefix]

-- Among records of one key it is the number that decides.
theorem withKey_lists (coherent : t.Coherent) (declared : Declared name index) (key : Key) :
    ∃ rows, t.withKey name key = .ok rows ∧
      t.Lists (fun row => index.key row = key) (fun row other => Stored.number row < Stored.number other) rows := by
  obtain ⟨all, run, -, -⟩ := startingWith_spec coherent declared key
  obtain ⟨rows, found, once, member⟩ := withKey_spec coherent declared key
  refine ⟨rows, found, .of_mem coherent once member ?_⟩
  have filtered : all.filter (fun row => index.key row == key) = rows := by
    unfold withKey at found
    rw [indexed_eq coherent declared, run] at found
    exact Except.ok.inj found
  have sorted := (startingWith_ordered coherent declared run).filter fun row => index.key row == key
  rw [filtered] at sorted
  apply sorted.imp_of_mem
  intro row other listed beside precedes
  rw [Index.Precedes, ((member row).mp listed).2, ((member other).mp beside).2] at precedes
  rcases precedes with before | ⟨-, less⟩
  · exact absurd before key.not_before_self
  · exact less

theorem Lists.eq_filter (coherent : t.Coherent) {fits : α → Prop} [DecidablePred fits]
    (lists : t.Lists fits (fun row other => Stored.number row < Stored.number other) rows) :
    rows = t.rows.values.filter fun row => fits row := by
  refine lists.naive.eq_of_pairwise (fun row other _ _ less more => ?_) lists.ordered
    ((ascending_values coherent).filter _)
  exact absurd less (Nat.lt_asymm more)

structure Lowest (t : Table α) (index : Index α) (key : Key) (row : α) : Prop where
  stored : row ∈ t.rows.values
  keyed : index.key row = key
  least : ∀ other ∈ t.rows.values, index.key other = key → Stored.number row ≤ Stored.number other

theorem Lists.head?_eq_some_iff
    (lists : t.Lists (fun row => index.key row = key) (fun row other => Stored.number row < Stored.number other) rows)
    {row : α} : rows.head? = some row ↔ t.Lowest index key row := by
  have member : ∀ row, row ∈ rows ↔ row ∈ t.rows.values ∧ index.key row = key := fun row => by
    rw [lists.naive.mem_iff, List.mem_filter, decide_eq_true_eq]
  have ordered := lists.ordered
  clear lists
  constructor
  · intro first
    obtain ⟨rest, rfl⟩ := List.head?_eq_some_iff.mp first
    obtain ⟨stored, keyed⟩ := (member row).mp (List.mem_cons_self ..)
    refine ⟨stored, keyed, fun other beside same => ?_⟩
    rcases List.mem_cons.mp ((member other).mpr ⟨beside, same⟩) with rfl | later
    · exact Nat.le_refl _
    · exact Nat.le_of_lt ((List.pairwise_cons.mp ordered).1 other later)
  · intro lowest
    have listed := (member row).mpr ⟨lowest.stored, lowest.keyed⟩
    cases rows with
    | nil => cases listed
    | cons first rest =>
      rcases List.mem_cons.mp listed with rfl | later
      · rfl
      · obtain ⟨stored, keyed⟩ := (member first).mp (List.mem_cons_self ..)
        have less := (List.pairwise_cons.mp ordered).1 row later
        exact absurd (lowest.least first stored keyed) (Nat.not_le.mpr less)

theorem scans_are_naive (sound : t.Sound) (declared : Declared name index) (key : Key) :
    (∃ rows, t.startingWith name key = .ok rows ∧
      t.Lists (fun row => key <+: index.key row) index.Precedes rows) ∧
    t.countStartingWith name key = .ok (t.rows.values.countP fun row => key <+: index.key row) ∧
    (∃ rows, t.withKey name key = .ok rows ∧
      t.Lists (fun row => index.key row = key) (fun row other => Stored.number row < Stored.number other) rows) ∧
    ∃ found, t.find name key = .ok found ∧
      (∀ row, found = some row ↔ t.Lowest index key row) ∧
      (found = none ↔ ∀ row ∈ t.rows.values, index.key row ≠ key) ∧
      (index.unique = true → ∀ row, found = some row ↔ row ∈ t.rows.values ∧ index.key row = key) := by
  have coherent := sound.toCoherent
  obtain ⟨beginning, run, scanned⟩ := startingWith_lists coherent declared key
  obtain ⟨rows, found, lists⟩ := withKey_lists coherent declared key
  have member : ∀ row, row ∈ rows ↔ row ∈ t.rows.values ∧ index.key row = key := fun row => by
    rw [lists.naive.mem_iff, List.mem_filter, decide_eq_true_eq]
  refine ⟨⟨beginning, run, scanned⟩, ?_, ⟨rows, found, lists⟩, rows.head?, by unfold find; rw [found]; rfl,
    fun row => lists.head?_eq_some_iff, ?_, fun unique row => ?_⟩
  · unfold countStartingWith
    rw [run, List.countP_eq_length_filter, ← scanned.naive.length_eq]
    rfl
  · rw [List.head?_eq_none_iff, List.eq_nil_iff_forall_not_mem]
    simp only [member, not_and, ne_eq]
  -- In a unique index all that has the key is one record.
  · rw [lists.head?_eq_some_iff]
    refine ⟨fun lowest => ⟨lowest.stored, lowest.keyed⟩, fun given => ⟨given.1, given.2, ?_⟩⟩
    intro other beside same
    exact Nat.le_of_eq (sound.distinct _ _ row other ((mem_values coherent).mp given.1)
      ((mem_values coherent).mp beside) ⟨index, declared.mem, unique, given.2.trans same.symm⟩)

def store (t : Table α) (row : α) : Table α := ((t.create fun _ => row).map Prod.snd).toOption.getD t

theorem Sound.store (sound : t.Sound) (row : α) : (t.store row).Sound := by
  unfold Table.store
  cases made : t.create fun _ => row with
  | error fault => exact sound
  | ok created => exact (create_sets sound made).2.2.1.sound

def keyring : Table EpochKey :=
  (((empty.store ⟨⟨0⟩, ⟨0⟩, 0, ⟨2⟩, "k0"⟩).store ⟨⟨1⟩, ⟨1⟩, 0, ⟨2⟩, "l0"⟩).store
    ⟨⟨2⟩, ⟨0⟩, 1, ⟨2⟩, "k1"⟩).store ⟨⟨3⟩, ⟨0⟩, 0, ⟨3⟩, "c0"⟩

theorem keyring_sound : keyring.Sound := (((empty_sound.store _).store _).store _).store _

def byRoomAndEpoch : Index EpochKey := ⟨"by_room_and_epoch", false, fun e => [e.room.part, epochPart e.epoch]⟩

def byRoomEpochParticipant : Index EpochKey :=
  ⟨"by_room_epoch_participant", true, fun e => [e.room.part, epochPart e.epoch, e.account.part]⟩

-- All keys of a room by epoch, and the only one that an account has for an epoch.
theorem scans_are_naive_keyring :
    keyring.Sound ∧ keyring.rows.values.map EpochKey.contentKey = ["k0", "l0", "k1", "c0"] ∧
    Declared "by_room_and_epoch" byRoomAndEpoch ∧
    Declared "by_room_epoch_participant" byRoomEpochParticipant ∧
    (∃ rows, keyring.startingWith "by_room_and_epoch" [RecordId.part (⟨0⟩ : RoomId)] = .ok rows ∧
      rows.Pairwise byRoomAndEpoch.Precedes ∧ rows.map EpochKey.contentKey = ["k0", "c0", "k1"]) ∧
    keyring.countStartingWith "by_room_and_epoch" [] = .ok 4 ∧
    ∃ found, keyring.find "by_room_epoch_participant"
        [RecordId.part (⟨0⟩ : RoomId), epochPart 0, RecordId.part (⟨3⟩ : AccountId)] = .ok found ∧
      found.map EpochKey.contentKey = some "c0" ∧ ∀ e, found = some e ↔ e ∈ keyring.rows.values ∧
        byRoomEpochParticipant.key e = [RecordId.part (⟨0⟩ : RoomId), epochPart 0, RecordId.part (⟨3⟩ : AccountId)] := by
  have declared : Declared "by_room_and_epoch" byRoomAndEpoch := rfl
  have declared' : Declared "by_room_epoch_participant" byRoomEpochParticipant := rfl
  obtain ⟨⟨rows, run, lists⟩, -⟩ := scans_are_naive keyring_sound declared [RecordId.part (⟨0⟩ : RoomId)]
  obtain ⟨-, counted, -⟩ := scans_are_naive keyring_sound declared []
  obtain ⟨-, -, -, found, run', -, -, only⟩ := scans_are_naive keyring_sound declared'
    [RecordId.part (⟨0⟩ : RoomId), epochPart 0, RecordId.part (⟨3⟩ : AccountId)]
  refine ⟨keyring_sound, by decide +kernel, declared, declared', ⟨rows, run, lists.ordered, ?_⟩,
    counted.trans (congrArg Except.ok (by decide +kernel)), found, run', ?_, only rfl⟩
  · have same : (keyring.startingWith "by_room_and_epoch" [RecordId.part (⟨0⟩ : RoomId)]).toOption.map
        (·.map EpochKey.contentKey) = some ["k0", "c0", "k1"] := by decide +kernel
    rw [run] at same
    exact Option.some.inj same
  · have same : (keyring.find "by_room_epoch_participant"
        [RecordId.part (⟨0⟩ : RoomId), epochPart 0, RecordId.part (⟨3⟩ : AccountId)]).toOption.map
        (·.map EpochKey.contentKey) = some (some "c0") := by decide +kernel
    rw [run'] at same
    exact Option.some.inj same

end Table

end RoomLedger
