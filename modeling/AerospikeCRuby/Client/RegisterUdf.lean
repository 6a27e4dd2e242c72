import AerospikeCRuby.Client.Key
import AerospikeCRuby.Library.ExceptLoop
import AerospikeCRuby.Ruby.Hash

/-!
# Uploading a file of user defined functions

`register_udf` reads a file into a buffer of one megabyte, as `fread` returns
it, and hands the buffer to the C client.  Nothing compares the write pointer
with the end of the buffer: a store behind it has no defined result.
-/

namespace AerospikeCRuby

/-- `rb_scan_args` with the format "22". -/
def scanArgs22 : List RbVal → Except Abort (RbVal × RbVal × RbVal × RbVal)
  | [first, second] => .ok (first, second, .nil, .nil)
  | [first, second, third] => .ok (first, second, third, .nil)
  | [first, second, third, fourth] => .ok (first, second, third, fourth)
  | _ => .error (.argumentError "wrong number of arguments")

/-- A C string in the text of an exception. -/
def CStr.toText (text : CStr) : String :=
  String.ofList (text.bytes.map fun byte => Char.ofNat byte.toNat)

/-- `register_udf` up to the loop: the file that was opened, and the path on the server. -/
def openUdf (rt : Runtime) (files : CStr → Option Bytes) (allocated : Bool) (argv : List RbVal) :
    Except Abort (Bytes × RbVal) := do
  let (pathToFile, serverPath, language, _) ← scanArgs22 argv
  if !language.isNil && !language.isSym "lua" then
    .error (.optionError ("[AerospikeC::Client][register_udf] in aerospike-c-client v3.1.24, " ++
      "only lua language is available"))
  else do
    let path ← valueToCstr rt pathToFile
    match files path with
    | none =>
        .error (.optionError ("[AerospikeC::Client][register_udf] Cannot read udf from given " ++
          "path: " ++ path.toText))
    | some content =>
        if allocated then .ok (content, serverPath)
        else .error (.raised "AerospikeC::MemoryError")

/-- The content of a file as `fread` returns it. -/
structure Chunks (content : Bytes) where
  chunks : List Bytes
  whole : chunks.flatten = content
  nonempty : ∀ chunk ∈ chunks, chunk ≠ []
  short : ∀ chunk ∈ chunks, chunk.length ≤ 512

def bufferSize : ℕ :=
  1024 * 1024

/-- The buffer, the offset of `p_write` in it, and `size`, which is an `int`. -/
structure UdfBuffer where
  content : ℕ → UInt8
  pWrite : ℕ
  size : BitVec 32

namespace UdfBuffer

/-- After `malloc`, with what happened to be there. -/
def malloc (heap : ℕ → UInt8) : UdfBuffer where
  content := heap
  pWrite := 0
  size := 0

/-- `fread` stores a chunk at `p_write`. -/
def store (state : UdfBuffer) (chunk : Bytes) : Option UdfBuffer :=
  if state.pWrite + chunk.length ≤ bufferSize then
    some { state with
      content := fun offset =>
        if state.pWrite ≤ offset then
          (chunk[offset - state.pWrite]?).getD (state.content offset)
        else state.content offset }
  else none

/-- The body of the loop before the next `fread`. -/
def advance (state : UdfBuffer) (read : ℕ) : UdfBuffer :=
  { state with
    size := state.size + BitVec.ofNat 32 read
    pWrite := state.pWrite + read }

/-- The loop, which ends when `fread` returns 0. -/
def readFrom : List Bytes → UdfBuffer → Option UdfBuffer
  | [], state => some state
  | chunk :: rest, state => do
      let stored ← state.store chunk
      readFrom rest (stored.advance chunk.length)

/-- The bytes of `udf_content`. -/
def asBytes (state : UdfBuffer) : Bytes :=
  (List.range state.size.toNat).map state.content

end UdfBuffer

inductive Registration where
  /-- An error is raised and nothing is uploaded. -/
  | raised (failure : Abort)
  /-- `aerospike_udf_put` is called. -/
  | put (serverPath : CStr) (udfContent : Bytes)
  /-- A byte was stored behind the buffer. -/
  | overrun

/-- `register_udf` up to the call of `aerospike_udf_put`. -/
def registerUdf (rt : Runtime) (files : CStr → Option Bytes) (allocated : Bool)
    (fread : ∀ content, Chunks content) (heap : ℕ → UInt8) (argv : List RbVal) : Registration :=
  match openUdf rt files allocated argv with
  | .error failure => .raised failure
  | .ok (content, serverPath) =>
      match UdfBuffer.readFrom (fread content).chunks (.malloc heap) with
      | none => .overrun
      | some state =>
          match valueToCstr rt serverPath with
          | .error failure => .raised failure
          | .ok path => .put path state.asBytes

/-- An error is raised or exactly the file is uploaded, and every byte is stored inside the buffer,
at the offset that `size` and `p_write` agree on. -/
structure UploadsExactly (rt : Runtime) (files : CStr → Option Bytes) (allocated : Bool)
    (fread : ∀ content, Chunks content) (heap : ℕ → UInt8) (argv : List RbVal) : Prop where
  outcome : (∃ failure, registerUdf rt files allocated fread heap argv = .raised failure) ∨
    ∃ content serverPath path, openUdf rt files allocated argv = .ok (content, serverPath) ∧
      registerUdf rt files allocated fread heap argv = .put path content
  inside : ∀ content serverPath, openUdf rt files allocated argv = .ok (content, serverPath) →
    ∀ before chunk after, (fread content).chunks = before ++ chunk :: after →
      ∃ state, UdfBuffer.readFrom before (.malloc heap) = some state ∧
        state.size.toInt = before.flatten.length ∧ state.pWrite = before.flatten.length ∧
        ∀ offset < chunk.length, state.pWrite + offset < bufferSize

namespace UdfBuffer

variable {state stored final : UdfBuffer} {done chunk : Bytes} {chunks : List Bytes}

/-- The buffer begins with these bytes, and both counters stand behind them. -/
structure Filled (state : UdfBuffer) (done : Bytes) : Prop where
  pWrite : state.pWrite = done.length
  size : state.size = BitVec.ofNat 32 done.length
  content : (List.range done.length).map state.content = done

theorem filled_malloc (heap : ℕ → UInt8) : (malloc heap).Filled [] where
  pWrite := rfl
  size := rfl
  content := rfl

/-- One iteration appends the chunk. -/
theorem Filled.advance (filled : state.Filled done) (stores : state.store chunk = some stored) :
    (stored.advance chunk.length).Filled (done ++ chunk) := by
  rw [store, Option.ite_none_right_eq_some, Option.some.injEq] at stores
  rcases stores with ⟨_, rfl⟩
  constructor
  · simp [UdfBuffer.advance, filled.pWrite]
  · simp [UdfBuffer.advance, filled.size, BitVec.ofNat_add]
  · rw [List.length_append, List.range_add, List.map_append, List.map_map]
    have old : (List.range done.length).map (fun offset =>
        if state.pWrite ≤ offset then (chunk[offset - state.pWrite]?).getD (state.content offset)
        else state.content offset) = (List.range done.length).map state.content := by
      apply List.map_congr_left
      intro offset before
      rw [if_neg]
      rw [filled.pWrite, not_le]
      exact List.mem_range.mp before
    have new : (List.range chunk.length).map ((fun offset =>
        if state.pWrite ≤ offset then (chunk[offset - state.pWrite]?).getD (state.content offset)
        else state.content offset) ∘ fun offset => done.length + offset) = chunk := by
      apply List.ext_getElem
      · simp
      · intro index _ inside
        simp [filled.pWrite, inside]
    change (List.range done.length).map (fun offset =>
        if state.pWrite ≤ offset then (chunk[offset - state.pWrite]?).getD (state.content offset)
        else state.content offset) ++ _ = _
    rw [old, filled.content]
    exact congrArg (done ++ ·) new

theorem Filled.readFrom (filled : state.Filled done)
    (finished : UdfBuffer.readFrom chunks state = some final) :
    final.Filled (done ++ chunks.flatten) := by
  induction chunks generalizing state done with
  | nil =>
      cases finished
      simpa using filled
  | cons chunk rest ih =>
      rw [UdfBuffer.readFrom] at finished
      rcases Option.bind_eq_some_iff.mp finished with ⟨stored, stores, finished⟩
      rw [List.flatten_cons, ← List.append_assoc]
      exact ih (filled.advance stores) finished

/-- The loop stays inside the buffer exactly if all chunks fit. -/
theorem readFrom_isSome_iff (inside : state.pWrite ≤ bufferSize) :
    (readFrom chunks state).isSome ↔ state.pWrite + chunks.flatten.length ≤ bufferSize := by
  induction chunks generalizing state with
  | nil => simpa [readFrom] using inside
  | cons chunk rest ih =>
      rw [readFrom, store, List.flatten_cons, List.length_append, ← Nat.add_assoc]
      split
      · rename_i fits
        exact ih fits
      · rename_i beyond
        refine iff_of_false (by simp) ?_
        omega

/-- The state that the loop reaches within a file that fits. -/
theorem exists_readFrom (heap : ℕ → UInt8) (fits : chunks.flatten.length ≤ bufferSize) :
    ∃ state, readFrom chunks (malloc heap) = some state ∧ state.Filled chunks.flatten := by
  have some : (readFrom chunks (malloc heap)).isSome := by
    rw [readFrom_isSome_iff (Nat.zero_le _)]
    simpa [malloc] using fits
  rcases Option.isSome_iff_exists.mp some with ⟨state, finished⟩
  exact ⟨state, finished, (filled_malloc heap).readFrom finished⟩

theorem Filled.toNat_size (filled : state.Filled done) (fits : done.length ≤ bufferSize) :
    state.size.toNat = done.length := by
  rw [filled.size, BitVec.toNat_ofNat, Nat.mod_eq_of_lt]
  norm_num [bufferSize] at fits
  omega

theorem Filled.toInt_size (filled : state.Filled done) (fits : done.length ≤ bufferSize) :
    state.size.toInt = done.length := by
  rw [BitVec.toInt_eq_toNat_of_lt, filled.toNat_size fits]
  rw [filled.toNat_size fits]
  norm_num [bufferSize] at fits
  omega

theorem Filled.asBytes_eq (filled : state.Filled done) (fits : done.length ≤ bufferSize) :
    state.asBytes = done := by
  rw [asBytes, filled.toNat_size fits, filled.content]

end UdfBuffer

section Registration

variable {rt : Runtime} {files : CStr → Option Bytes} {allocated : Bool}
  {fread : ∀ content, Chunks content} {heap : ℕ → UInt8} {argv : List RbVal}
  {content : Bytes} {serverPath : RbVal}

/-- What becomes of a file that was opened and fits. -/
theorem registerUdf_of_fits (opened : openUdf rt files allocated argv = .ok (content, serverPath))
    (fits : content.length ≤ bufferSize) :
    registerUdf rt files allocated fread heap argv =
      match valueToCstr rt serverPath with
      | .error failure => .raised failure
      | .ok path => .put path content := by
  have whole := (fread content).whole
  rw [← whole] at fits
  rcases UdfBuffer.exists_readFrom heap fits with ⟨state, finished, filled⟩
  simp only [registerUdf, opened, finished]
  rw [filled.asBytes_eq fits, whole]

theorem registerUdf_of_long (opened : openUdf rt files allocated argv = .ok (content, serverPath))
    (long : bufferSize < content.length) :
    registerUdf rt files allocated fread heap argv = .overrun := by
  have ends : UdfBuffer.readFrom (fread content).chunks (.malloc heap) = none := by
    rw [← Option.not_isSome_iff_eq_none, UdfBuffer.readFrom_isSome_iff (Nat.zero_le _),
      (fread content).whole]
    simpa [UdfBuffer.malloc] using long
  simp only [registerUdf, opened, ends]

/-- A file is uploaded exactly where it fits into the buffer, or is not read at all. -/
theorem uploadsExactly_iff (rt : Runtime) (files : CStr → Option Bytes) (allocated : Bool)
    (fread : ∀ content, Chunks content) (heap : ℕ → UInt8) (argv : List RbVal) :
    UploadsExactly rt files allocated fread heap argv ↔
      ∀ content serverPath, openUdf rt files allocated argv = .ok (content, serverPath) →
        content.length ≤ bufferSize := by
  constructor
  · intro exact_ content serverPath opened
    have whole := (fread content).whole
    rcases List.eq_nil_or_concat (fread content).chunks with none | ⟨before, last, chunks⟩
    · rw [← whole, none]
      exact Nat.zero_le _
    · rw [List.concat_eq_append] at chunks
      rcases exact_.inside content serverPath opened before last [] chunks with
        ⟨state, _, _, atOffset, inside⟩
      have member : last ∈ (fread content).chunks := by simp [chunks]
      have some := List.length_pos_iff.mpr ((fread content).nonempty last member)
      have final := inside (last.length - 1) (by omega)
      have size : content.length = before.flatten.length + last.length := by
        rw [← whole, chunks]
        simp
      omega
  · intro fits
    constructor
    · cases opened : openUdf rt files allocated argv with
      | error failure => exact Or.inl ⟨failure, by rw [registerUdf, opened]⟩
      | ok file =>
          rcases file with ⟨content, serverPath⟩
          rw [registerUdf_of_fits opened (fits content serverPath opened)]
          cases named : valueToCstr rt serverPath with
          | error failure => exact Or.inl ⟨failure, rfl⟩
          | ok path => exact Or.inr ⟨content, serverPath, path, rfl, rfl⟩
    · intro content serverPath opened before chunk after chunks
      have small := fits content serverPath opened
      have size : content.length =
          before.flatten.length + chunk.length + after.flatten.length := by
        rw [← (fread content).whole, chunks]
        simp [Nat.add_assoc]
      have part : before.flatten.length ≤ bufferSize := by omega
      rcases UdfBuffer.exists_readFrom heap part with ⟨state, finished, filled⟩
      refine ⟨state, finished, filled.toInt_size part, filled.pWrite, ?_⟩
      intro offset within
      rw [filled.pWrite]
      omega

/-- A file that `fread` returns byte by byte. -/
def bytewise (content : Bytes) : Chunks content where
  chunks := content.map fun byte => [byte]
  whole := by simp [← List.flatMap_def]
  nonempty := by simp
  short := by simp

/-- A file of one byte more than the buffer holds. -/
def longFile : Bytes :=
  List.replicate (bufferSize + 1) 0

/-- The arguments `"udf.lua", "udf.lua"`. -/
def udfArguments : List RbVal :=
  [rbStrLit "udf.lua", rbStrLit "udf.lua"]

/-- The last byte of the file is stored behind the buffer. -/
theorem not_uploadsExactly_longFile :
    registerUdf Runtime.sample (fun _ => some longFile) true bytewise (fun _ => 0) udfArguments =
        .overrun ∧
      ¬UploadsExactly Runtime.sample (fun _ => some longFile) true bytewise (fun _ => 0)
        udfArguments := by
  have opened : openUdf Runtime.sample (fun _ => some longFile) true udfArguments =
      .ok (longFile, rbStrLit "udf.lua") := rfl
  have overrun : registerUdf Runtime.sample (fun _ => some longFile) true bytewise (fun _ => 0)
      udfArguments = .overrun :=
    registerUdf_of_long opened (by simp [longFile])
  refine ⟨overrun, fun exact_ => ?_⟩
  rcases exact_.outcome with ⟨_, raised⟩ | ⟨_, _, _, _, uploaded⟩
  · rw [overrun] at raised
    cases raised
  · rw [overrun] at uploaded
    cases uploaded

end Registration

end AerospikeCRuby
