import Mathlib.Algebra.Group.Nat.Defs
import RoomLedger.Value.Forms
import RoomLedger.Proofs.SortedContents

namespace RoomLedger

open Std

namespace Wire

variable {α β : Type}

-- The reader takes `bytes` for `a`, whatever stands after them.
def Reads (read : Reader α) (bytes : List UInt8) (a : α) : Prop :=
  ∀ rest, read (bytes ++ rest) = .ok (a, rest)

namespace Reads

theorem pure (a : α) : Reads (return a) [] a := fun _ => rfl

theorem bind {first : Reader α} {next : α → Reader β} {front back : List UInt8} {a : α} {b : β}
    (head : Reads first front a) (tail : Reads (next a) back b) :
    Reads (first >>= next) (front ++ back) b := by
  intro rest
  have taken : first (front ++ back ++ rest) = .ok (a, back ++ rest) := by
    rw [List.append_assoc]
    exact head (back ++ rest)
  change first (front ++ back ++ rest) >>= (fun pair => next pair.1 pair.2) = _
  rw [taken]
  exact tail rest

theorem last {first : Reader α} {next : α → Reader β} {bytes : List UInt8} {a : α} {b : β}
    (reads : Reads first bytes a) (done : Reads (next a) [] b) : Reads (first >>= next) bytes b := by
  rw [← List.append_nil bytes]
  exact reads.bind done

theorem map {read : Reader α} {bytes : List UInt8} {a : α} (reads : Reads read bytes a) (f : α → β) :
    Reads (do return f (← read)) bytes (f a) := reads.last (pure (f a))

-- Two values whose forms begin alike are one value.
theorem unambiguous {read : Reader α} {front whole : List UInt8} {a b : α} (first : Reads read front a)
    (second : Reads read whole b) (begins : front <+: whole) : a = b := by
  obtain ⟨tail, rfl⟩ := begins
  have one := first tail
  have other := second []
  rw [List.append_nil, one] at other
  cases other
  rfl

end Reads

theorem reads_take (bytes : List UInt8) : Reads (take bytes.length) bytes bytes := by
  intro rest
  simp [take, List.splitAt_eq]

theorem length_lowBytes (count n : Nat) : (lowBytes count n).length = count := by
  induction count generalizing n with
  | zero => rfl
  | succ count ih => rw [lowBytes, List.length_cons, ih]

theorem ofLowBytes_lowBytes (count n : Nat) : ofLowBytes (lowBytes count n) = n % 256 ^ count := by
  induction count generalizing n with
  | zero => rw [Nat.pow_zero, Nat.mod_one]; rfl
  | succ count ih =>
    rw [lowBytes, ofLowBytes, ih, Nat.pow_succ', Nat.mod_mul, UInt8.toNat_ofNat']

theorem reads_nat {count n : Nat} (room : n < 256 ^ count) : Reads (readNat count) (lowBytes count n) n := by
  have taken := reads_take (lowBytes count n)
  rw [length_lowBytes] at taken
  have reads := taken.map ofLowBytes
  rw [ofLowBytes_lowBytes, Nat.mod_eq_of_lt room] at reads
  exact reads

theorem reads_count {n : Nat} (room : n < 2 ^ 64) : Reads readCount (writeCount n) n := reads_nat room

theorem reads_many {read : Reader α} {write : α → List UInt8} {items : List α}
    (each : ∀ a ∈ items, Reads read (write a) a) :
    Reads (readMany read items.length) (items.flatMap write) items := by
  induction items with
  | nil => exact .pure []
  | cons a items ih =>
    rw [List.flatMap_cons]
    have tail := ih fun b member => each b (List.mem_cons_of_mem _ member)
    exact (each a (List.mem_cons_self ..)).bind (tail.map _)

theorem ofUtf8?_utf8 (s : String) : ofUtf8? (utf8 s) = some s := by
  change String.fromUTF8? s.toByteArray = some s
  rw [String.fromUTF8?, dif_pos s.isValidUTF8]
  rfl

theorem ofUtf8?_eq_some {s : String} {bytes : List UInt8} (read : ofUtf8? bytes = some s) : utf8 s = bytes := by
  unfold ofUtf8? String.fromUTF8? at read
  split at read
  · cases read
    rfl
  · cases read

end Wire

namespace ObjectId

-- The three parts stand beside each other in the word.
theorem toNat_pack (id : ObjectId) : id.pack.toNat =
    2 ^ 56 * id.space.toNat + (2 ^ 48 * id.type.toNat + id.number % 2 ^ 48) := by
  have space := id.space.toNat_lt
  have type := id.type.toNat_lt
  have low : id.number % 2 ^ 48 < 2 ^ 48 := Nat.mod_lt _ (by decide)
  have middle : 2 ^ 48 * id.type.toNat + id.number % 2 ^ 48 < 2 ^ 56 := by omega
  have high : (id.space.toUInt64 <<< 56).toNat = 2 ^ 56 * id.space.toNat := by
    rw [UInt64.toNat_shiftLeft, UInt8.toNat_toUInt64]
    change id.space.toNat <<< 56 % 2 ^ 64 = _
    rw [Nat.shiftLeft_eq]
    omega
  have next : (id.type.toUInt64 <<< 48).toNat = 2 ^ 48 * id.type.toNat := by
    rw [UInt64.toNat_shiftLeft, UInt8.toNat_toUInt64]
    change id.type.toNat <<< 48 % 2 ^ 64 = _
    rw [Nat.shiftLeft_eq]
    omega
  have last : (UInt64.ofNat (id.number % (maxNumber + 1))).toNat = id.number % 2 ^ 48 := by
    rw [UInt64.toNat_ofNat']
    exact Nat.mod_eq_of_lt (Nat.lt_trans low (by decide))
  rw [pack, UInt64.toNat_or, UInt64.toNat_or, high, next, last, Nat.or_assoc,
    ← Nat.two_pow_add_eq_or_of_lt low, ← Nat.two_pow_add_eq_or_of_lt middle]

theorem unpack_pack (id : ObjectId) (small : id.number ≤ maxNumber) : unpack id.pack = id := by
  have word := id.toNat_pack
  have number : id.number < 2 ^ 48 := Nat.lt_succ_of_le small
  rw [Nat.mod_eq_of_lt number] at word
  obtain ⟨s, t, n⟩ := id
  have space := s.toNat_lt
  have type := t.toNat_lt
  simp only [] at word number
  simp only [unpack, mk.injEq]
  refine ⟨UInt8.toNat_inj.mp ?_, UInt8.toNat_inj.mp ?_, ?_⟩
  · rw [UInt64.toNat_toUInt8, UInt64.toNat_shiftRight, word]
    change (_ >>> 56) % 2 ^ 8 = _
    rw [Nat.shiftRight_eq_div_pow]
    omega
  · rw [UInt64.toNat_toUInt8, UInt64.toNat_shiftRight, word]
    change (_ >>> 48) % 2 ^ 8 = _
    rw [Nat.shiftRight_eq_div_pow]
    omega
  · rw [word, maxNumber]
    omega

theorem pack_unpack (word : UInt64) : (unpack word).pack = word := by
  have bound := word.toNat_lt
  have space : (word >>> 56).toUInt8.toNat = word.toNat / 2 ^ 56 % 2 ^ 8 := by
    rw [UInt64.toNat_toUInt8, UInt64.toNat_shiftRight]
    change (_ >>> 56) % 2 ^ 8 = _
    rw [Nat.shiftRight_eq_div_pow]
  have type : (word >>> 48).toUInt8.toNat = word.toNat / 2 ^ 48 % 2 ^ 8 := by
    rw [UInt64.toNat_toUInt8, UInt64.toNat_shiftRight]
    change (_ >>> 48) % 2 ^ 8 = _
    rw [Nat.shiftRight_eq_div_pow]
  refine UInt64.toNat_inj.mp ?_
  rw [toNat_pack, unpack, space, type, maxNumber]
  dsimp only
  omega

end ObjectId

-- Values that are read back from their form. `fits` leaves out those that are too large for it.
class Faithful (α : Type) [Wire α] where
  fits : α → Bool
  reads : ∀ a, fits a → Wire.Reads Wire.read (Wire.write a) a

namespace Faithful

variable {α β κ : Type}

instance : Faithful UInt8 where
  fits _ := true
  reads _ _ _ := rfl

instance : Faithful UInt32 where
  fits _ := true
  reads n _ := by
    have room : n.toNat < 256 ^ 4 := n.toNat_lt
    have reads := (Wire.reads_nat room).map UInt32.ofNat
    rwa [UInt32.ofNat_toNat] at reads

instance : Faithful UInt64 where
  fits _ := true
  reads n _ := by
    have room : n.toNat < 256 ^ 8 := n.toNat_lt
    have reads := (Wire.reads_nat room).map UInt64.ofNat
    rwa [UInt64.ofNat_toNat] at reads

instance : Faithful Int64 where
  fits _ := true
  reads n _ := by
    have reads := (Faithful.reads n.toUInt64 rfl).map UInt64.toInt64
    rwa [Int64.toInt64_toUInt64] at reads

instance : Faithful String where
  fits s := s.utf8ByteSize < 2 ^ 64
  reads s fits := by
    have room : (Wire.utf8 s).length < 2 ^ 64 := of_decide_eq_true fits
    refine (Wire.reads_count room).bind ((Wire.reads_take (Wire.utf8 s)).last ?_)
    rw [Wire.ofUtf8?_utf8]
    exact .pure s

instance [Wire α] [Faithful α] : Faithful (Option α) where
  fits a? := a?.all fits
  reads a? fits := by
    cases a? with
    | none => exact fun _ => rfl
    | some a => exact fun rest => (Faithful.reads a fits).map some rest

instance [Wire α] [Faithful α] : Faithful (List α) where
  fits items := items.length < 2 ^ 64 && items.all fits
  reads items fits := by
    rw [Bool.and_eq_true, decide_eq_true_iff, List.all_eq_true] at fits
    obtain ⟨room, each⟩ := fits
    exact (Wire.reads_count room).bind (Wire.reads_many fun a member => reads a (each a member))

instance [Wire α] [Wire β] [Faithful α] [Faithful β] : Faithful (α × β) where
  fits pair := fits pair.1 && fits pair.2
  reads pair fits := by
    rw [Bool.and_eq_true] at fits
    exact (reads pair.1 fits.1).bind ((reads pair.2 fits.2).map _)

variable [Ord κ] [TransOrd κ] [LawfulEqOrd κ] [Wire κ] [Faithful κ]

instance [Wire α] [Faithful α] : Faithful (SortedMap κ α) where
  fits m := fits m.entries
  reads m fits := by
    have reads := (Faithful.reads m.entries fits).map SortedMap.ofList
    rwa [m.ofList_entries] at reads

instance : Faithful (SortedSet κ) where
  fits s := fits s.toList
  reads s fits := by
    have reads := (Faithful.reads s.toList fits).map SortedSet.ofList
    rwa [s.ofList_toList] at reads

instance : Faithful ObjectId where
  fits id := id.number ≤ ObjectId.maxNumber
  reads id fits := by
    have reads := (Faithful.reads id.pack rfl).map ObjectId.unpack
    rwa [id.unpack_pack (of_decide_eq_true fits)] at reads

instance {k : Kind} : Faithful (RecordId k) where
  fits r := r.number < 2 ^ 64
  reads _ fits := (Wire.reads_count (of_decide_eq_true fits)).map RecordId.mk

instance : Faithful Timestamp where
  fits _ := true
  reads t _ := (Faithful.reads t.seconds rfl).map Timestamp.mk

instance : Faithful LocalizedName where
  fits name := fits name.texts
  reads name fits := (Faithful.reads name.texts fits).map LocalizedName.mk

end Faithful

end RoomLedger
