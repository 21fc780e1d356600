import RoomLedger.Block.Transaction
import RoomLedger.Chain.Genesis
import RoomLedger.Operation.Outcome
import RoomLedger.Proofs.BinaryForms
import RoomLedger.Proofs.TreeReading

namespace RoomLedger

open Std

-- Values whose JSON form has a text and is read back. `fits` leaves out those with an id out of range.
class Legible (α : Type) [Form α] where
  spelled : ∀ a : α, (Form.write a).Spelled
  fits : α → Bool
  reads : ∀ a, fits a → Form.read (Form.write a) = some a

-- Values whose form cannot be mistaken for that of nothing.
class Shown (α : Type) [Form α] : Prop where
  not_null : ∀ a : α, Form.write a ≠ .null

class LegibleName (κ : Type) [NameForm κ] where
  spelled : ∀ k : κ, Spelling.wellSpelled (NameForm.spell k).toList = true
  fits : κ → Bool
  reads : ∀ k, fits k → NameForm.ofSpelling (NameForm.spell k) = some k

namespace Form

theorem readNat_ofNat {bound n : Nat} (small : n < bound) : readNat bound (.ofNat n) = some n := by
  unfold readNat
  rw [Json.asInt?_ofNat]
  exact if_pos small

theorem mapM_some {α β : Type} {read : β → Option α} {write : α → β} {items : List α}
    (each : ∀ a ∈ items, read (write a) = some a) : (items.map write).mapM read = some items := by
  induction items with
  | nil => rfl
  | cons a rest ih =>
    rw [List.forall_mem_cons] at each
    rw [List.map_cons, List.mapM_cons, each.1, ih each.2]
    rfl

end Form

namespace Legible

variable {α κ : Type}

instance : Legible UInt8 where
  spelled n := .number (Json.isNumber_signedText n.toNat)
  fits _ := true
  reads n _ := by
    change (Form.readNat _ (.ofNat n.toNat)).map UInt8.ofNat = _
    rw [Form.readNat_ofNat n.toNat_lt, Option.map_some, UInt8.ofNat_toNat]

instance : Legible UInt32 where
  spelled n := .number (Json.isNumber_signedText n.toNat)
  fits _ := true
  reads n _ := by
    change (Form.readNat _ (.ofNat n.toNat)).map UInt32.ofNat = _
    rw [Form.readNat_ofNat n.toNat_lt, Option.map_some, UInt32.ofNat_toNat]

instance : Legible UInt64 where
  spelled n := .number (Json.isNumber_signedText n.toNat)
  fits _ := true
  reads n _ := by
    change (Form.readNat _ (.ofNat n.toNat)).map UInt64.ofNat = _
    rw [Form.readNat_ofNat n.toNat_lt, Option.map_some, UInt64.ofNat_toNat]

instance : Legible Int64 where
  spelled n := .number (Json.isNumber_signedText n.toInt)
  fits _ := true
  reads n _ := by
    have range : -0x8000000000000000 ≤ n.toInt ∧ n.toInt < 0x8000000000000000 := ⟨n.le_toInt, n.toInt_lt⟩
    change ((Json.ofInt n.toInt).asInt? >>= fun m =>
      if -0x8000000000000000 ≤ m ∧ m < 0x8000000000000000 then some (Int64.ofInt m) else none) = _
    rw [Json.asInt?_ofInt]
    refine (if_pos range).trans ?_
    rw [Int64.ofInt_toInt]

instance : Legible String where
  spelled s := .text (Spelling.wellSpelled_ofText s)
  fits _ := true
  reads s _ := Spelling.text?_ofText s

instance : Shown String where
  not_null _ same := nomatch same

instance [Form α] [Legible α] [Shown α] : Legible (Option α) where
  spelled a? := match a? with
    | none => .null
    | some a => spelled a
  fits a? := a?.all fits
  reads a? fits := by
    cases a? with
    | none => rfl
    | some a =>
      have read : (Form.read (Form.write a)).map some = some (some a) := congrArg (Option.map some) (reads a fits)
      refine Eq.trans ?_ read
      change (match Form.write a with | .null => some none | tree => (Form.read tree).map some) = _
      split
      · rename_i null
        exact absurd null (Shown.not_null a)
      · rfl

instance [Form α] [Legible α] : Legible (List α) where
  spelled items := .list (List.forall_mem_map.mpr fun a _ => spelled a)
  fits items := items.all fits
  reads items fits := by
    rw [List.all_eq_true] at fits
    change (items.map Form.write).mapM Form.read = _
    exact Form.mapM_some fun a member => reads a (fits a member)

variable [Ord κ] [TransOrd κ] [LawfulEqOrd κ]

instance [Form κ] [Legible κ] : Legible (SortedSet κ) where
  spelled s := spelled s.toList
  fits s := fits s.toList
  reads s fits := by
    change (Form.read (Form.write s.toList)).map SortedSet.ofList = _
    rw [reads s.toList fits, Option.map_some, s.ofList_toList]

instance [NameForm κ] [LegibleName κ] [Form α] [Legible α] : Legible (SortedMap κ α) where
  spelled m := .record (List.forall_mem_map.mpr fun e _ => LegibleName.spelled e.1)
    (List.forall_mem_map.mpr fun e _ => spelled e.2)
  fits m := m.entries.all fun e => LegibleName.fits e.1 && fits e.2
  reads m fits := by
    rw [List.all_eq_true] at fits
    have each : ∀ e ∈ m.entries, (do return (← NameForm.ofSpelling (NameForm.spell e.1),
        ← Form.read (Form.write e.2)) : Option (κ × α)) = some e := by
      intro e member
      have fits := fits e member
      rw [Bool.and_eq_true] at fits
      rw [LegibleName.reads e.1 fits.1, reads e.2 fits.2]
      rfl
    change ((m.entries.map fun e => (NameForm.spell e.1, Form.write e.2)).mapM _ >>= fun entries =>
      some (SortedMap.ofList entries)) = _
    rw [Form.mapM_some each]
    exact congrArg some m.ofList_entries

instance : Legible Timestamp where
  spelled t := spelled t.seconds
  fits _ := true
  reads t _ := congrArg (Option.map Timestamp.mk) (reads t.seconds rfl)

instance : LegibleName String where
  spelled := Spelling.wellSpelled_ofText
  fits _ := true
  reads s _ := Spelling.text?_ofText s

instance : LegibleName UInt8 where
  spelled n := Decimal.toList_text n.toNat ▸ Spelling.wellSpelled_digits n.toNat
  fits _ := true
  reads n _ := by
    change (Form.canonicalNat? _ (Decimal.text n.toNat)).map UInt8.ofNat = _
    rw [Form.canonicalNat?_text n.toNat_lt, Option.map_some, UInt8.ofNat_toNat]

instance : LegibleName UInt32 where
  spelled n := Decimal.toList_text n.toNat ▸ Spelling.wellSpelled_digits n.toNat
  fits _ := true
  reads n _ := by
    change (Form.canonicalNat? _ (Decimal.text n.toNat)).map UInt32.ofNat = _
    rw [Form.canonicalNat?_text n.toNat_lt, Option.map_some, UInt32.ofNat_toNat]

instance : Legible ObjectId where
  spelled id := .text (Spelling.wellSpelled_ofText id.text)
  fits id := id.number ≤ ObjectId.maxNumber
  reads id fits := by
    change (Spelling.text? (Spelling.ofText id.text) >>= fun text => (ObjectId.parse text).toOption) = _
    rw [Spelling.text?_ofText]
    exact congrArg Except.toOption (ObjectId.parse_text (of_decide_eq_true fits))

instance {k : Kind} : Legible (RecordId k) where
  spelled r := .text (Spelling.wellSpelled_ofText r.text)
  fits r := r.number ≤ ObjectId.maxNumber
  reads r fits := by
    change (Spelling.text? (Spelling.ofText r.text) >>= fun text => (RecordId.parse text).toOption) = _
    rw [Spelling.text?_ofText]
    exact congrArg Except.toOption (RecordId.parse_text (of_decide_eq_true fits))

instance {k : Kind} : LegibleName (RecordId k) where
  spelled r := Spelling.wellSpelled_ofText r.text
  fits r := fits r
  reads r fits := reads r fits

instance : Shown ObjectId where
  not_null _ same := nomatch same

instance : Legible LocalizedName where
  spelled name := spelled name.texts
  fits name := fits name.texts
  reads name fits := congrArg (Option.map LocalizedName.mk) (reads name.texts fits)

instance : Shown LocalizedName where
  not_null _ same := nomatch same

end Legible

namespace Layout

variable {τ : Type}

def names {τ : Type} : Layout τ → List String
  | .done => []
  | @field _ _ _ _ name _ rest => name :: rest.names

def plain {τ : Type} : Layout τ → τ → List (String × Json)
  | .done, _ => []
  | @field _ _ _ _ name _ rest, (a, b) => (name, Form.write a) :: rest.plain b

theorem members_eq (layout : Layout τ) (value : τ) :
    layout.members value = (layout.plain value).map fun m => (Spelling.ofText m.1, m.2) := by
  induction layout with
  | done => rfl
  | field name absent rest ih =>
    obtain ⟨a, b⟩ := value
    rw [members, plain, List.map_cons, ih]

theorem names_plain (layout : Layout τ) (value : τ) : (layout.plain value).map Prod.fst = layout.names := by
  induction layout with
  | done => rfl
  | field name absent rest ih =>
    obtain ⟨a, b⟩ := value
    rw [plain, List.map_cons, ih, names]

-- A layout reads what it wrote, if each of its fields does and each has a name of its own. Other members
-- do not matter.
structure Legible (layout : Layout τ) where
  spelled : ∀ value, ∀ m ∈ layout.plain value, m.2.Spelled
  fits : τ → Bool
  reads : layout.names.Nodup → ∀ value, fits value → ∀ members : List (String × Json),
    (∀ name ∈ layout.names, (members.filter fun m => m.1 == name) =
      (layout.plain value).filter fun m => m.1 == name) → layout.ofMembers members = some value

namespace Legible

def done : Layout.done.Legible where
  spelled _ _ member := nomatch member
  fits _ := true
  reads _ _ _ _ _ := rfl

def field {α β : Type} [Wire α] [Form α] [RoomLedger.Legible α] {name : String} {absent : Option α}
    {rest : Layout β} (later : rest.Legible) : (Layout.field name absent rest).Legible where
  spelled value := List.forall_mem_cons.mpr ⟨RoomLedger.Legible.spelled value.1, later.spelled value.2⟩
  fits value := RoomLedger.Legible.fits value.1 && later.fits value.2
  reads distinct value fits members found := by
    obtain ⟨a, b⟩ := value
    rw [Bool.and_eq_true] at fits
    obtain ⟨fresh, distinct⟩ := List.nodup_cons.mp distinct
    have own : (members.filter fun m => m.1 == name) = [(name, Form.write a)] := by
      rw [found name (List.mem_cons_self ..), plain, List.filter_cons_of_pos (by simp)]
      refine congrArg _ (List.filter_eq_nil_iff.mpr fun m member => ?_)
      have listed : m.1 ∈ rest.names := names_plain rest b ▸ List.mem_map_of_mem member
      simp only [beq_iff_eq]
      rintro rfl
      exact fresh listed
    have others : rest.ofMembers members = some b := by
      refine later.reads distinct b fits.2 members fun other listed => ?_
      rw [found other (List.mem_cons_of_mem _ listed), plain, List.filter_cons_of_neg]
      simp only [beq_iff_eq]
      rintro rfl
      exact fresh listed
    unfold ofMembers
    rw [own]
    dsimp only
    rw [RoomLedger.Legible.reads a fits.1, others]
    rfl

end Legible

theorem ofJson?_toJson {layout : Layout τ} (fields : layout.Legible) (distinct : layout.names.Nodup) {value : τ}
    (fits : fields.fits value) : layout.ofJson? (layout.toJson value) = some value := by
  have spelled : (layout.members value).mapM (fun m => do return (← Spelling.text? m.1, m.2)) =
      some (layout.plain value) := by
    rw [members_eq]
    refine Form.mapM_some fun m _ => ?_
    rw [Spelling.text?_ofText]
    rfl
  change ((layout.members value).mapM _ >>= fun named => layout.ofMembers named) = _
  rw [spelled]
  exact fields.reads distinct value fits _ fun _ _ => rfl

end Layout

namespace Legible

@[reducible] def laid {σ : Type} [Laid σ] (fields : (Laid.layout (σ := σ)).Legible)
    (distinct : (Laid.layout (σ := σ)).names.Nodup) : Legible σ where
  spelled s := by
    change Json.Spelled (.record ((Laid.layout (σ := σ)).members (Laid.toTuple s)))
    rw [Layout.members_eq]
    exact .record (List.forall_mem_map.mpr fun m _ => Spelling.wellSpelled_ofText m.1)
      (List.forall_mem_map.mpr fun m member => fields.spelled _ m member)
  fits s := fields.fits (Laid.toTuple s)
  reads s fits := by
    change ((Laid.layout (σ := σ)).ofJson? ((Laid.layout (σ := σ)).toJson (Laid.toTuple s))).map Laid.ofTuple = _
    rw [Layout.ofJson?_toJson fields distinct fits, Option.map_some, Laid.ofTuple_toTuple]

open Layout.Legible

instance : Legible Funds := .laid (.field <| .field .done) (by decide)

instance : Legible Transfer := .laid (.field <| .field <| .field <| .field <| .field .done) (by decide)
instance : Legible CreateAccount := .laid (.field <| .field <| .field .done) (by decide)
instance : Legible CreateRoom := .laid (.field <| .field <| .field <| .field .done) (by decide)
instance : Legible UpdateRoom := .laid (.field <| .field <| .field <| .field .done) (by decide)
instance : Legible AddParticipant :=
  .laid (.field <| .field <| .field <| .field <| .field <| .field .done) (by decide)
instance : Legible RemoveParticipant := .laid (.field <| .field <| .field .done) (by decide)
instance : Legible RotateKey := .laid (.field <| .field <| .field <| .field <| .field .done) (by decide)
instance : Legible DeleteRoom := .laid (.field <| .field <| .field .done) (by decide)
instance : Legible CreateSport := .laid (.field <| .field .done) (by decide)
instance : Legible UpdateSport := .laid (.field <| .field <| .field .done) (by decide)
instance : Legible DeleteSport := .laid (.field <| .field .done) (by decide)
instance : Legible CreateEventGroup := .laid (.field <| .field <| .field .done) (by decide)
instance : Legible UpdateEventGroup := .laid (.field <| .field <| .field <| .field .done) (by decide)
instance : Legible DeleteEventGroup := .laid (.field <| .field .done) (by decide)

instance (k : OperationKind) : Legible k.Payload :=
  match k with
  | .transfer => inferInstanceAs (Legible Transfer)
  | .createAccount => inferInstanceAs (Legible CreateAccount)
  | .createRoom => inferInstanceAs (Legible CreateRoom)
  | .updateRoom => inferInstanceAs (Legible UpdateRoom)
  | .addParticipant => inferInstanceAs (Legible AddParticipant)
  | .removeParticipant => inferInstanceAs (Legible RemoveParticipant)
  | .rotateKey => inferInstanceAs (Legible RotateKey)
  | .deleteRoom => inferInstanceAs (Legible DeleteRoom)
  | .createSport => inferInstanceAs (Legible CreateSport)
  | .updateSport => inferInstanceAs (Legible UpdateSport)
  | .deleteSport => inferInstanceAs (Legible DeleteSport)
  | .createEventGroup => inferInstanceAs (Legible CreateEventGroup)
  | .updateEventGroup => inferInstanceAs (Legible UpdateEventGroup)
  | .deleteEventGroup => inferInstanceAs (Legible DeleteEventGroup)

instance : Legible Operation where
  spelled op := .list (List.forall_mem_cons.mpr ⟨spelled op.tag, List.forall_mem_singleton.mpr (spelled op.payload)⟩)
  fits op := fits op.payload
  reads op fits := by
    change (Form.read (Form.write op.tag) >>= fun tag => OperationKind.ofTag? tag >>= fun k =>
      Form.read (Form.write op.payload) >>= fun p => some (Operation.ofPayload k p)) = _
    rw [Legible.reads op.tag rfl, Option.bind_eq_bind, Option.bind_some, Operation.tag, op.kind.ofTag?_tag,
      Option.bind_eq_bind, Option.bind_some, Legible.reads op.payload fits]
    exact congrArg some op.ofPayload_payload

instance : Legible Touched := .laid (.field <| .field <| .field .done) (by decide)

theorem read_pair (outcome : Outcome) (payload : Json) :
    (Form.read (.list [Form.write outcome.tag, payload]) : Option Outcome) = match outcome.tag, payload with
      | 0, .null => some .nothing
      | 1, tree => (Form.read tree).map .object
      | 2, tree => (Form.read tree).map .funds
      | 3, tree => (Form.read tree).map .touched
      | _, _ => none := by
  change (Form.read (Form.write outcome.tag) >>= fun tag : UInt8 => match tag, payload with
    | 0, .null => some Outcome.nothing
    | 1, tree => (Form.read tree).map .object
    | 2, tree => (Form.read tree).map .funds
    | 3, tree => (Form.read tree).map .touched
    | _, _ => none) = _
  rw [Legible.reads outcome.tag rfl, Option.bind_eq_bind, Option.bind_some]

instance : Legible Outcome where
  spelled outcome := .list <| List.forall_mem_cons.mpr ⟨spelled outcome.tag, List.forall_mem_singleton.mpr <|
    match outcome with
    | .nothing => .null
    | .object id => spelled id
    | .funds amount => spelled amount
    | .touched ids => spelled ids⟩
  fits
    | .nothing => true
    | .object id => fits id
    | .funds amount => fits amount
    | .touched ids => fits ids
  reads outcome fits := by
    refine (read_pair outcome _).trans ?_
    cases outcome with
    | nothing => rfl
    | object id => exact congrArg (Option.map Outcome.object) (Legible.reads id fits)
    | funds amount => exact congrArg (Option.map Outcome.funds) (Legible.reads amount fits)
    | touched ids => exact congrArg (Option.map Outcome.touched) (Legible.reads ids fits)

instance : Legible Transaction := .laid (.field <| .field .done) (by decide)
instance : Legible Block := .laid (.field <| .field <| .field .done) (by decide)

instance : Legible FeeParameters := .laid (.field <| .field .done) (by decide)
instance : Legible FeeSchedule := .laid (.field <| .field .done) (by decide)
instance : Legible GenesisAsset := .laid (.field <| .field .done) (by decide)
instance : Legible GenesisAccount := .laid (.field <| .field .done) (by decide)
instance : Legible Genesis := .laid (.field <| .field <| .field <| .field .done) (by decide)

end Legible

end RoomLedger
