import RoomLedger.Proofs.BinaryForms
import RoomLedger.Proofs.ContentReads
import RoomLedger.Proofs.RecordIds
import RoomLedger.Proofs.SnapshotRefinement

namespace RoomLedger

open Wire

namespace Database

def readRow (k : Kind) : Reader k.Row := do
  let _ ← readCount
  Wire.read

-- The listings are not written: they follow from the records.
def readTable (k : Kind) : Reader (Table k.Row) := do
  let next ← readCount
  let written ← readMany (readRow k) (← readCount)
  let rows := SortedMap.ofList (written.map fun row => (Stored.number row, row))
  return ⟨next, rows, Table.listingsOf rows⟩

-- The table of a kind, if the bytes go on with the class of the kind.
def readSection (k : Kind) : Reader (Option (Table k.Row))
  | space :: type :: bytes =>
    if space = k.space ∧ type = k.type then (do return some (← readTable k)) bytes
    else .ok (none, space :: type :: bytes)
  | bytes => .ok (none, bytes)

def readSections : List Kind → Contents → Reader Contents
  | [], found => return found
  | k :: later, found => do readSections later (found.set k (← readSection k))

-- The bytes are those of the registered tables one after the other, each after the class of its
-- kind, so going through the kinds in their order finds every table again.
def recover (bytes : List UInt8) : Option Contents :=
  match readSections Kind.all (.ofFn fun _ => none) bytes with
  | .ok (found, []) => some found
  | _ => none

end Database

def Table.fits {k : Kind} (t : Table k.Row) : Bool :=
  t.next < 2 ^ 64 && t.size < 2 ^ 64 &&
    t.rows.values.all fun row => Faithful.fits row && (Wire.write row).length < 2 ^ 64

namespace Database

variable {k : Kind} {t : Table k.Row} {db other : Database} {contents : Contents}

theorem reads_row {row : k.Row} (fits : Faithful.fits row) (room : (Wire.write row).length < 2 ^ 64) :
    Reads (readRow k) (writeCount (Wire.write row).length ++ Wire.write row) row :=
  (reads_count room).bind (Faithful.reads row fits)

theorem ofList_numbered (coherent : t.Coherent) :
    SortedMap.ofList (t.rows.values.map fun row => (Stored.number row, row)) = t.rows := by
  have entries : (t.rows.values.map fun row => (Stored.number row, row)) = t.rows.entries := by
    rw [SortedMap.values, List.map_map]
    refine (List.map_congr_left ?_).trans (List.map_id _)
    intro e member
    have found := (t.rows.mem_entries_iff e.1 e.2).mp member
    exact Prod.ext (coherent.numbered e.1 e.2 found) rfl
  rw [entries, t.rows.ofList_entries]

theorem reads_table (coherent : t.Coherent) (fits : t.fits) : Reads (readTable k) (tableBytes t) t := by
  simp only [Table.fits, Bool.and_eq_true, decide_eq_true_eq, List.all_eq_true] at fits
  obtain ⟨⟨next, size⟩, rows⟩ := fits
  have many := reads_many fun row member => reads_row (rows row member).1 (rows row member).2
  have length : t.rows.values.length = t.size := List.length_map _
  rw [length] at many
  have recovered : (⟨t.next, t.rows, Table.listingsOf t.rows⟩ : Table k.Row) = t := by
    rw [← coherent.mirrored]
  rw [tableBytes, List.append_assoc]
  refine (reads_count next).bind ((reads_count size).bind (many.last ?_))
  dsimp only
  rw [ofList_numbered coherent, recovered]
  exact .pure t

def sectionOf (contents : Contents) (k : Kind) : List UInt8 :=
  (contents.get k).elim [] fun t => k.space :: k.type :: tableBytes t

theorem sectionOf_missing (missing : contents.get k = none) : sectionOf contents k = [] := by
  rw [sectionOf, missing]
  rfl

theorem sectionOf_held (held : contents.get k = some t) :
    sectionOf contents k = k.space :: k.type :: tableBytes t := by
  rw [sectionOf, held]
  rfl

theorem readSection_held (held : contents.get k = some t) (coherent : t.Coherent) (fits : t.fits) :
    Reads (readSection k) (sectionOf contents k) (some t) := by
  intro rest
  have table := (reads_table coherent fits).map some rest
  rw [sectionOf_held held, List.cons_append, List.cons_append, readSection, if_pos ⟨rfl, rfl⟩]
  exact table

-- What is written for other kinds does not begin with the class of this one.
theorem readSection_missing {kinds : List Kind} (contents : Contents) (absent : k ∉ kinds) :
    readSection k (kinds.flatMap (sectionOf contents)) = .ok (none, kinds.flatMap (sectionOf contents)) := by
  induction kinds with
  | nil => rfl
  | cons j later ih =>
    rw [List.mem_cons, not_or] at absent
    obtain ⟨different, absent⟩ := absent
    rw [List.flatMap_cons]
    cases held : contents.get j with
    | none =>
      rw [sectionOf_missing held]
      exact ih absent
    | some t =>
      rw [sectionOf_held held, List.cons_append, List.cons_append, readSection, if_neg]
      intro same
      have ids : k.id 0 = j.id 0 := by rw [Kind.id, Kind.id, same.1, same.2]
      exact different (Kind.id_inj.mp ids).1

structure Readable (db : Database) : Prop where
  coherent : ∀ k t, db.contents.get k = some t → t.Coherent
  fits : ∀ k, (db.contents.get k).all Table.fits

theorem Readable.reads_section (readable : db.Readable) {later : List Kind} (absent : k ∉ later) :
    readSection k (sectionOf db.contents k ++ later.flatMap (sectionOf db.contents)) =
      .ok (db.contents.get k, later.flatMap (sectionOf db.contents)) := by
  cases held : db.contents.get k with
  | none =>
    rw [sectionOf_missing held]
    exact readSection_missing db.contents absent
  | some t =>
    have fits := readable.fits k
    rw [held] at fits
    exact readSection_held held (readable.coherent k t held) fits _

theorem Readable.reads (readable : db.Readable) (kinds : List Kind) (distinct : kinds.Nodup) (found : Contents) :
    readSections kinds found (kinds.flatMap (sectionOf db.contents)) =
      .ok (kinds.foldl (fun found k => found.set k (db.contents.get k)) found, []) := by
  induction kinds generalizing found with
  | nil => rfl
  | cons k later ih =>
    obtain ⟨absent, distinct⟩ := List.nodup_cons.mp distinct
    rw [List.flatMap_cons, List.foldl_cons, ← ih distinct]
    change readSection k _ >>= (fun pair => readSections later (found.set k pair.1) pair.2) = _
    rw [readable.reads_section absent]
    rfl

theorem Readable.recovered (readable : db.Readable) : recover db.serialize = some db.contents := by
  have whole : db.serialize = Kind.all.flatMap (sectionOf db.contents) := serialize_eq_contents db
  rw [recover, whole, readable.reads Kind.all Kind.nodup_all]
  refine congrArg some (PerKind.ext_get fun k => ?_)
  cases k <;> rfl

-- Nothing that can be asked of the records tells the two apart.
structure Alike (db other : Database) : Prop where
  registered : db.registered = other.registered
  counters : ∀ k, db.next k = other.next k
  records : ∀ k n, db.row? k n = other.row? k n
  get : ∀ k id, db.get k id = other.get k id
  findBy : ∀ k index key, db.findBy k index key = other.findBy k index key
  withKey : ∀ k index key, db.withKey k index key = other.withKey k index key
  startingWith : ∀ k index start, db.startingWith k index start = other.startingWith k index start

theorem registered_eq_contents (db : Database) :
    db.registered = Kind.all.filter fun k => (db.contents.get k).isSome := by
  simp only [registered, get_contents, Option.isSome_map]

theorem alike_of_contents (same : db.contents = other.contents) : db.Alike other where
  registered := by rw [registered_eq_contents, registered_eq_contents, same]
  counters k := by rw [next_eq_contents, next_eq_contents, same]
  records k n := by rw [row?_eq_contents, row?_eq_contents, same]
  get k id := get_congr (by rw [same]) id
  findBy k index key := findBy_congr (by rw [same]) index key
  withKey k index key := withKey_congr (by rw [same]) index key
  startingWith k index start := startingWith_congr (by rw [same]) index start

theorem Readable.contents_eq (readable : db.Readable) (also : other.Readable)
    (same : db.serialize = other.serialize) : db.contents = other.contents := by
  apply Option.some.inj
  rw [← readable.recovered, ← also.recovered, same]

def digested (db : Database) : List UInt8 := utf8 "acta-state-v1:" ++ db.serialize

theorem serialization_separates (readable : db.Readable) (also : other.Readable) :
    recover db.serialize = some db.contents ∧
    (db.serialize = other.serialize → db.Alike other) ∧
    (db.digest = other.digest → db.Alike other ∨
      (db.digested ≠ other.digested ∧ Digest.ofInput db.digested = Digest.ofInput other.digested)) := by
  refine ⟨readable.recovered, fun same => alike_of_contents (readable.contents_eq also same), ?_⟩
  intro same
  by_cases input : db.digested = other.digested
  · have bytes : db.serialize = other.serialize := List.append_cancel_left input
    exact .inl (alike_of_contents (readable.contents_eq also bytes))
  · exact .inr ⟨input, same⟩

theorem readable_of_sound (sound : db.Sound) (fits : ∀ k, (db.contents.get k).all Table.fits) : db.Readable where
  coherent k t held := by
    rw [get_contents, Option.map_eq_some_iff] at held
    obtain ⟨tracked, held, rfl⟩ := held
    exact (sound.table k tracked held).toCoherent
  fits := fits

def afterCalls (calls : List Call) : Database := (answers Call.run calls (opened [.sport, .supply])).2

theorem afterCalls_sound (calls : List Call) : (afterCalls calls).Sound := by
  obtain ⟨saved, recalls, -⟩ := answers_copying calls (opened_recalls [.sport, .supply])
  exact recalls.sound

def oneSport : List Call := [.create .sport fun s => { s with name := ⟨.ofList [("en", "chess")]⟩ }]

-- A session that was undone and one that is still open leave no mark in the records.
def reopened : List Call := oneSport ++ [.push, .remove .sport (Kind.sport.id 0), .undo, .push]

theorem serialization_separates_reopened : (afterCalls oneSport).depth ≠ (afterCalls reopened).depth ∧
    (afterCalls oneSport).serialize = (afterCalls reopened).serialize ∧
    (afterCalls oneSport).Alike (afterCalls reopened) := by
  have readable : (afterCalls oneSport).Readable :=
    readable_of_sound (afterCalls_sound oneSport) fun k => by cases k <;> decide
  have also : (afterCalls reopened).Readable :=
    readable_of_sound (afterCalls_sound reopened) fun k => by cases k <;> decide
  have same : (afterCalls oneSport).serialize = (afterCalls reopened).serialize := by decide
  exact ⟨by decide, same, (serialization_separates readable also).2.1 same⟩

end Database

end RoomLedger
