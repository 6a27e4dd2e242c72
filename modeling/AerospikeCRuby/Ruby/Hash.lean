import AerospikeCRuby.Ruby.Runtime

/-!
# Hashes read by Symbols

Options and operations reach the extension as Hashes whose keys are Symbols.
`rb_hash_aref` gives nil for a missing key.  It does not look at the type of
what it is handed, and what it makes of anything but a Hash is a parameter.
-/

namespace AerospikeCRuby

/-- A Symbol of an ASCII name. -/
def sym (name : String) : RbVal :=
  .symbol ⟨ascii name, ⟨"US-ASCII"⟩⟩

/-- Comparison with a Symbol of an ASCII name, which has no other encoding. -/
def RbVal.isSym (value : RbVal) (name : String) : Bool :=
  match value with
  | .symbol text => text.bytes == ascii name
  | _ => false

def RbVal.isNil : RbVal → Bool
  | .nil => true
  | _ => false

/-- `rb_hash_aref` of a Hash. -/
def hashAref (entries : List (RbVal × RbVal)) (name : String) : RbVal :=
  match entries.find? fun entry => entry.1.isSym name with
  | some entry => entry.2
  | none => .nil

/-- `rb_hash_aref` of any value. -/
def rbHashAref (misread : RbVal → String → Except Abort RbVal) (value : RbVal) (name : String) :
    Except Abort RbVal :=
  match value with
  | .hash entries => .ok (hashAref entries name)
  | other => misread other name

namespace Runtime

/-- `FIX2INT` of any value: `rb_fix2int` converts what is no fixnum. -/
def rbFix2int (rt : Runtime) (value : RbVal) : Except Abort ℤ := do
  let num ← rt.num2long value
  fix2int num

end Runtime

@[simp]
theorem sym_isSym (name other : String) : (sym name).isSym other = (ascii name == ascii other) :=
  rfl

end AerospikeCRuby
