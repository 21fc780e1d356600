import RoomLedger.Block.Log
import RoomLedger.Proofs.BinaryForms

namespace RoomLedger.Log

variable {block : Block} {blocks : List Block} {bytes rest part : List UInt8}

structure Frame (block : Block) (frame : List UInt8) where
  header : List UInt8
  payload : List UInt8
  joined : frame = header ++ payload
  four : header.length = 4
  announced : Wire.ofLowBytes header.reverse = payload.length
  bounded : payload.length ≤ maxBlockBytes
  holds : Wire.decode payload = .ok block

theorem readBlock_short (short : bytes.length < 4) : readBlock bytes = .error .tooShort := by
  unfold readBlock
  rw [List.splitAt_eq]
  split
  · rename_i a b c d after split
    have four := congrArg (fun p => p.1.length) split
    simp only [List.length_take, List.length_cons, List.length_nil] at four
    omega
  · rfl

theorem readBlock_header {header body : List UInt8} (four : header.length = 4) :
    readBlock (header ++ body) =
      let size := Wire.ofLowBytes header.reverse
      if maxBlockBytes < size then .error (.tooLarge size)
      else if body.length < size then .error (.incomplete (4 + body.length) (4 + size))
      else match Wire.decode (body.take size) with
        | .ok block => .ok (block, body.drop size)
        | .error fault => .error (.unreadable fault) := by
  match header, four with
  | [a, b, c, d], _ =>
    have shorter : ∀ size, (body.take size).length < size ↔ body.length < size := by
      intro size
      rw [List.length_take]
      omega
    have total : ([a, b, c, d] ++ body).length = 4 + body.length := by
      rw [List.length_append]
      rfl
    have split : ([a, b, c, d] ++ body).splitAt 4 = ([a, b, c, d], body) := by simp [List.splitAt_eq]
    unfold readBlock
    simp only [split, total, List.splitAt_eq, shorter]
    rfl

theorem Frame.read {frame : List UInt8} (framed : Frame block frame) (rest : List UInt8) :
    readBlock (frame ++ rest) = .ok (block, rest) := by
  rw [framed.joined, List.append_assoc, readBlock_header framed.four]
  simp only [framed.announced]
  rw [if_neg (Nat.not_lt.mpr framed.bounded), if_neg (by simp), List.take_left, framed.holds, List.drop_left]

-- A block that is read stands in a frame at the front.
theorem frame_of_readBlock (read : readBlock bytes = .ok (block, rest)) :
    ∃ frame, Nonempty (Frame block frame) ∧ bytes = frame ++ rest := by
  rcases Nat.lt_or_ge bytes.length 4 with short | long
  · rw [readBlock_short short] at read
    cases read
  · have four : (bytes.take 4).length = 4 := List.length_take_of_le long
    have whole : bytes.take 4 ++ bytes.drop 4 = bytes := List.take_append_drop 4 bytes
    rw [← whole, readBlock_header four] at read
    simp only at read
    split at read
    · cases read
    · rename_i small
      split at read
      · cases read
      · rename_i enough
        split at read
        · rename_i decoded
          cases read
          have size := List.length_take_of_le (Nat.not_lt.mp enough)
          refine ⟨bytes.take 4 ++ (bytes.drop 4).take (Wire.ofLowBytes (bytes.take 4).reverse),
            ⟨⟨_, _, rfl, four, size.symm, ?_, decoded⟩⟩, ?_⟩
          · rw [size]
            exact Nat.not_lt.mp small
          · rw [List.append_assoc, List.take_append_drop, List.take_append_drop]
        · cases read

theorem length_frame {frame : List UInt8} (framed : Frame block frame) : 4 ≤ frame.length := by
  rw [framed.joined, List.length_append, framed.four]
  omega

def Fault.isFraming : Fault → Bool
  | .tooShort | .incomplete _ _ => true
  | _ => false

theorem readBlock_cut {frame : List UInt8} (framed : Frame block frame) (begins : part <+: frame)
    (cut : part.length < frame.length) : ∃ fault, fault.isFraming ∧ readBlock part = .error fault := by
  obtain ⟨missing, whole⟩ := begins
  rcases Nat.lt_or_ge part.length 4 with short | long
  · exact ⟨.tooShort, rfl, readBlock_short short⟩
  · have header : framed.header = part.take 4 := by
      have first := congrArg (List.take 4) (whole.trans framed.joined)
      rw [List.take_append_of_le_length long, List.take_left' framed.four] at first
      exact first.symm
    have size := congrArg List.length framed.joined
    rw [List.length_append, framed.four] at size
    refine ⟨.incomplete (4 + (part.drop 4).length) (4 + framed.payload.length), rfl, ?_⟩
    rw [← List.take_append_drop 4 part, ← header, readBlock_header framed.four]
    simp only [framed.announced]
    rw [if_neg (Nat.not_lt.mpr framed.bounded), if_pos, List.drop_left' framed.four]
    rw [List.length_drop]
    omega

theorem decode_write (fits : Faithful.fits block) : Wire.decode (Wire.write block) = .ok block := by
  rw [← List.append_nil (Wire.write block)]
  exact (Wire.selfDelimiting Block).decoded block fits []

theorem frame_of_writeBlock (holds : Wire.decode (Wire.write block) = .ok block)
    (written : writeBlock block = .ok bytes) : Nonempty (Frame block bytes) := by
  unfold writeBlock at written
  dsimp only at written
  split at written
  · cases written
  · rename_i small
    cases written
    refine ⟨⟨_, _, rfl, ?_, ?_, Nat.not_lt.mp small, holds⟩⟩
    · rw [List.length_reverse, Wire.length_lowBytes]
    · rw [List.reverse_reverse, Wire.ofLowBytes_lowBytes]
      exact Nat.mod_eq_of_lt (Nat.lt_of_le_of_lt (Nat.not_lt.mp small) (by decide))

theorem writeBlock_eq_ok_iff : (∃ bytes, writeBlock block = .ok bytes) ↔
    (Wire.write block).length ≤ maxBlockBytes := by
  unfold writeBlock
  dsimp only
  split
  · rename_i large
    exact ⟨fun ⟨_, written⟩ => (nomatch written), fun small => absurd large (Nat.not_lt.mpr small)⟩
  · rename_i small
    exact ⟨fun _ => Nat.not_lt.mp small, fun _ => ⟨_, rfl⟩⟩

theorem write_cons_eq_ok_iff : write (block :: blocks) = .ok bytes ↔
    ∃ frame later, writeBlock block = .ok frame ∧ write blocks = .ok later ∧ bytes = frame ++ later := by
  unfold write
  rw [List.mapM_cons]
  cases writeBlock block with
  | error fault => exact ⟨fun written => (nomatch written), fun ⟨_, _, written, _⟩ => (nomatch written)⟩
  | ok frame =>
    cases blocks.mapM writeBlock with
    | error fault => exact ⟨fun written => (nomatch written), fun ⟨_, _, _, written, _⟩ => (nomatch written)⟩
    | ok frames =>
      constructor
      · intro written
        cases written
        exact ⟨_, _, rfl, rfl, rfl⟩
      · rintro ⟨_, _, first, others, rfl⟩
        cases first
        cases others
        rfl

theorem read_nil : read [] = .ok [] := by
  rw [read]
  rfl

theorem read_of_ok (taken : readBlock bytes = .ok (block, rest)) :
    read bytes = (read rest).map (block :: ·) := by
  have nonempty : bytes.isEmpty = false := by
    cases bytes with
    | nil => cases taken
    | cons _ _ => rfl
  rw [read, nonempty]
  simp only [Bool.false_eq_true, if_false]
  split
  · rename_i fault failed
    rw [taken] at failed
    cases failed
  · rename_i other after same
    rw [taken] at same
    cases same
    cases read rest <;> rfl

theorem read_of_error {fault : Fault} (nonempty : bytes ≠ []) (failed : readBlock bytes = .error fault) :
    read bytes = .error fault := by
  rw [read, List.isEmpty_eq_false_iff.mpr nonempty]
  simp only [Bool.false_eq_true, if_false]
  split
  · rename_i other same
    rw [failed] at same
    cases same
    rfl
  · rename_i taken
    rw [failed] at taken
    cases taken

theorem read_frame {frame : List UInt8} (framed : Frame block frame) (rest : List UInt8) :
    read (frame ++ rest) = (read rest).map (block :: ·) := read_of_ok (framed.read rest)

inductive Frames : List Block → List UInt8 → Prop where
  | nil : Frames [] []
  | cons {block : Block} {blocks : List Block} {frame later : List UInt8} (first : Frame block frame)
      (others : Frames blocks later) : Frames (block :: blocks) (frame ++ later)

theorem frames_of_read (taken : read bytes = .ok blocks) : Frames blocks bytes := by
  fun_induction read bytes generalizing blocks with
  | case1 bytes empty =>
    cases taken
    rw [List.isEmpty_iff] at empty
    subst empty
    exact .nil
  | case2 => cases taken
  | case3 bytes _ block rest one _ ih =>
    obtain ⟨frame, ⟨framed⟩, rfl⟩ := frame_of_readBlock one
    cases others : read rest with
    | error fault =>
      rw [others] at taken
      cases taken
    | ok later =>
      rw [others] at taken
      cases taken
      exact .cons framed (ih others)

theorem Frames.read_append {front : List UInt8} (frames : Frames blocks front) (back : List UInt8) :
    read (front ++ back) = (read back).map (blocks ++ ·) := by
  induction frames with
  | nil =>
    rw [List.nil_append]
    cases read back <;> rfl
  | cons first _ ih =>
    rw [List.append_assoc, read_frame first, ih]
    cases read back <;> rfl

theorem Frames.read (frames : Frames blocks bytes) : read bytes = .ok blocks := by
  have joined := frames.read_append []
  rw [List.append_nil, read_nil] at joined
  rw [joined]
  simp [Except.map]

theorem frames_of_write (fits : ∀ b ∈ blocks, Faithful.fits b) (written : write blocks = .ok bytes) :
    Frames blocks bytes := by
  induction blocks generalizing bytes with
  | nil =>
    cases written
    exact .nil
  | cons block blocks ih =>
    obtain ⟨frame, later, one, others, rfl⟩ := write_cons_eq_ok_iff.mp written
    obtain ⟨framed⟩ := frame_of_writeBlock (decode_write (fits block (List.mem_cons_self ..))) one
    exact .cons framed (ih (fun b member => fits b (List.mem_cons_of_mem _ member)) others)

theorem write_eq_ok_iff : (∃ bytes, write blocks = .ok bytes) ↔
    ∀ b ∈ blocks, (Wire.write b).length ≤ maxBlockBytes := by
  induction blocks with
  | nil => exact ⟨fun _ b member => (by cases member), fun _ => ⟨[], rfl⟩⟩
  | cons block blocks ih =>
    rw [List.forall_mem_cons, ← ih, ← writeBlock_eq_ok_iff]
    constructor
    · rintro ⟨bytes, written⟩
      obtain ⟨frame, later, one, others, -⟩ := write_cons_eq_ok_iff.mp written
      exact ⟨⟨frame, one⟩, later, others⟩
    · rintro ⟨⟨frame, one⟩, later, others⟩
      exact ⟨_, write_cons_eq_ok_iff.mpr ⟨frame, later, one, others, rfl⟩⟩

-- The beginning of a log ends where a frame ends, or in the middle of one.
theorem read_part (fits : ∀ b ∈ blocks, Faithful.fits b) (written : write blocks = .ok bytes)
    (begins : part <+: bytes) : (∃ k ≤ blocks.length, write (blocks.take k) = .ok part) ∨
      ∃ fault, fault.isFraming ∧ read part = .error fault := by
  induction blocks generalizing bytes part with
  | nil =>
    cases written
    cases List.prefix_nil.mp begins
    exact .inl ⟨0, Nat.le_refl _, rfl⟩
  | cons block blocks ih =>
    obtain ⟨frame, later, one, others, rfl⟩ := write_cons_eq_ok_iff.mp written
    obtain ⟨framed⟩ := frame_of_writeBlock (decode_write (fits block (List.mem_cons_self ..))) one
    -- The cut is in the first frame, or it is behind it and the rest is cut.
    rcases Nat.lt_or_ge part.length frame.length with cut | reaches
    · have inside : part <+: frame := List.prefix_of_prefix_length_le begins (List.prefix_append ..) (Nat.le_of_lt cut)
      by_cases nothing : part = []
      · subst nothing
        exact .inl ⟨0, Nat.zero_le _, rfl⟩
      · obtain ⟨fault, framing, failed⟩ := readBlock_cut framed inside cut
        exact .inr ⟨fault, framing, read_of_error nothing failed⟩
    · obtain ⟨tail, rfl⟩ := List.prefix_of_prefix_length_le (List.prefix_append frame later) begins reaches
      rw [List.prefix_append_right_inj] at begins
      rcases ih (fun b member => fits b (List.mem_cons_of_mem _ member)) others begins with
        ⟨k, within, ends⟩ | ⟨fault, framing, failed⟩
      · refine .inl ⟨k + 1, Nat.succ_le_succ within, ?_⟩
        exact write_cons_eq_ok_iff.mpr ⟨frame, tail, one, ends, rfl⟩
      · refine .inr ⟨fault, framing, ?_⟩
        rw [read_frame framed, failed]
        rfl

structure Cut (blocks : List Block) (part : List UInt8) : Prop where
  -- After `k` frames it is the log of the first `k` blocks.
  between : ∀ k, write (blocks.take k) = .ok part → read part = .ok (blocks.take k)
  within : (∀ k ≤ blocks.length, write (blocks.take k) ≠ .ok part) →
    ∃ fault, fault.isFraming ∧ read part = .error fault

-- Logs may be put one behind the other, and one that is cut off is read up to the cut or, within a
-- frame, is found to be cut off.
structure Survives (blocks : List Block) : Prop where
  written : (∃ bytes, write blocks = .ok bytes) ↔ ∀ b ∈ blocks, (Wire.write b).length ≤ maxBlockBytes
  reread : ∀ bytes, write blocks = .ok bytes → read bytes = .ok blocks
  cut : ∀ bytes, write blocks = .ok bytes → ∀ part, part <+: bytes → Cut blocks part

-- Reading goes on with what a frame leaves over.
def Goes (rest bytes : List UInt8) : Prop := ∃ block, readBlock bytes = .ok (block, rest)

theorem Goes.shorter (goes : Goes rest bytes) : rest.length + 4 ≤ bytes.length := by
  obtain ⟨block, taken⟩ := goes
  obtain ⟨frame, ⟨framed⟩, rfl⟩ := frame_of_readBlock taken
  have long := length_frame framed
  rw [List.length_append]
  omega

theorem logs_survive : (∀ blocks : List Block, (∀ b ∈ blocks, Faithful.fits b) → Survives blocks) ∧
    (∀ front back blocks, read front = .ok blocks → read (front ++ back) = (read back).map (blocks ++ ·)) ∧
    WellFounded Goes := by
  refine ⟨fun blocks fits => ?_, fun front back blocks taken => (frames_of_read taken).read_append back, ?_⟩
  · refine ⟨write_eq_ok_iff, fun bytes written => (frames_of_write fits written).read, ?_⟩
    intro bytes written part begins
    refine ⟨fun k ends => (frames_of_write (fun b member => fits b (List.mem_of_mem_take member)) ends).read, ?_⟩
    intro inside
    rcases read_part fits written begins with ⟨k, within, ends⟩ | broken
    · exact absurd ends (inside k within)
    · exact broken
  · refine Subrelation.wf (fun {rest bytes} goes => ?_) (measure (α := List UInt8) List.length).wf
    have shorter := Goes.shorter goes
    change rest.length < bytes.length
    omega

def dayOne : Block := ⟨1, ⟨3⟩, []⟩

def dayTwo : Block := ⟨2, ⟨5⟩, [⟨[], .ofList [⟨8⟩]⟩]⟩

def frameOne : List UInt8 := [0, 0, 0, 16, 1, 0, 0, 0, 3, 0, 0, 0, 0, 0, 0, 0, 0, 0, 0, 0]

def frameTwo : List UInt8 := [0, 0, 0, 40, 2, 0, 0, 0, 5, 0, 0, 0, 1, 0, 0, 0, 0, 0, 0, 0, 0, 0, 0, 0, 0, 0, 0, 0,
  1, 0, 0, 0, 0, 0, 0, 0, 8, 0, 0, 0, 0, 0, 0, 0]

theorem logs_survive_days : (∀ b ∈ [dayOne, dayTwo], Faithful.fits b) ∧
    write [dayOne, dayTwo] = .ok (frameOne ++ frameTwo) ∧ read (frameOne ++ frameTwo) = .ok [dayOne, dayTwo] ∧
    (write [dayOne] = .ok frameOne ∧ read frameOne = .ok [dayOne]) ∧
    (frameOne ++ frameTwo.take 4 <+: frameOne ++ frameTwo ∧
      ∃ fault, fault.isFraming ∧ read (frameOne ++ frameTwo.take 4) = .error fault) ∧
    read (frameOne ++ (frameOne ++ frameTwo)) = .ok [dayOne, dayOne, dayTwo] := by
  obtain ⟨survive, joins, -⟩ := logs_survive
  have fits : ∀ b ∈ [dayOne, dayTwo], Faithful.fits b := by decide
  have written : write [dayOne, dayTwo] = .ok (frameOne ++ frameTwo) := by rfl
  have begins : frameOne ++ frameTwo.take 4 <+: frameOne ++ frameTwo := by decide
  have whole := (survive _ fits).reread _ written
  have first := ((survive _ fits).cut _ written frameOne (List.prefix_append ..)).between 1 (by rfl)
  have within := ((survive _ fits).cut _ written _ begins).within fun k bound =>
    match k, bound with
    | 0, _ | 1, _ | 2, _ => fun same => (nomatch same)
  refine ⟨fits, written, whole, ⟨by rfl, first⟩, ⟨begins, within⟩, ?_⟩
  rw [joins _ _ _ first, whole]
  rfl

end RoomLedger.Log
