import AerospikeCRuby.Aerospike.Value
import AerospikeCRuby.Library.AssocList

/-!
# Records of the C client

An `as_record` is an array of named bins with a fixed capacity.  The setters
refuse a name of more than 14 bytes and a new name in a full record; a name
already present has its value replaced.
-/

namespace AerospikeCRuby

abbrev asBinNameMaxLen : ℕ := 14

structure AsRecord where
  bins : List (CStr × AsVal)
  capacity : ℕ
  gen : UInt16
  ttl : UInt32
  addressable : capacity < 2 ^ 16
  fits : bins.length ≤ capacity
  distinct : (AssocList.keys bins).Nodup
  named : ∀ name ∈ AssocList.keys bins, name.bytes.length ≤ asBinNameMaxLen

namespace AsRecord

/-- `as_record_init`, whose capacity is a `uint16_t`. -/
def init (nbins : ℕ) : AsRecord where
  bins := []
  capacity := nbins % 2 ^ 16
  gen := 0
  ttl := 0
  addressable := Nat.mod_lt _ (by decide)
  fits := Nat.zero_le _
  distinct := List.nodup_nil
  named := by simp

/-- The name is short enough and either taken already or one more bin fits. -/
def Accepts (rec : AsRecord) (name : CStr) : Prop :=
  name.bytes.length ≤ asBinNameMaxLen ∧
    (name ∈ AssocList.keys rec.bins ∨ rec.bins.length < rec.capacity)

instance (rec : AsRecord) (name : CStr) : Decidable (rec.Accepts name) :=
  inferInstanceAs (Decidable (_ ∧ _))

theorem Accepts.fits {rec : AsRecord} {name : CStr} (accepted : rec.Accepts name)
    (value : AsVal) : (AssocList.putLast rec.bins name value).length ≤ rec.capacity := by
  by_cases present : name ∈ AssocList.keys rec.bins
  · rw [AssocList.putLast, AssocList.length_put_of_mem present]
    exact rec.fits
  · have room := accepted.2.resolve_left present
    rw [AssocList.putLast, AssocList.length_put_of_not_mem present]
    omega

theorem Accepts.named {rec : AsRecord} {name : CStr} (accepted : rec.Accepts name)
    (value : AsVal) : ∀ other ∈ AssocList.keys (AssocList.putLast rec.bins name value),
      other.bytes.length ≤ asBinNameMaxLen := by
  intro other member
  rw [AssocList.putLast, AssocList.mem_keys_put] at member
  rcases member with rfl | member
  · exact accepted.1
  · exact rec.named other member

/-- The setters `as_record_set_*`: the answer says whether the bin was set. -/
def set (rec : AsRecord) (name : CStr) (value : AsVal) : Bool × AsRecord :=
  if accepted : rec.Accepts name then
    (true,
      { rec with
        bins := AssocList.putLast rec.bins name value
        fits := accepted.fits value
        distinct := AssocList.nodup_keys_put rec.distinct
        named := accepted.named value })
  else (false, rec)

@[simp]
theorem bins_init (nbins : ℕ) : (init nbins).bins = [] := rfl

@[simp]
theorem capacity_init (nbins : ℕ) : (init nbins).capacity = nbins % 2 ^ 16 := rfl

@[simp]
theorem capacity_set (rec : AsRecord) (name : CStr) (value : AsVal) :
    (rec.set name value).2.capacity = rec.capacity := by
  unfold set
  split <;> rfl

@[simp]
theorem gen_set (rec : AsRecord) (name : CStr) (value : AsVal) :
    (rec.set name value).2.gen = rec.gen := by
  unfold set
  split <;> rfl

@[simp]
theorem ttl_set (rec : AsRecord) (name : CStr) (value : AsVal) :
    (rec.set name value).2.ttl = rec.ttl := by
  unfold set
  split <;> rfl

theorem bins_set_of_accepts {rec : AsRecord} {name : CStr} (accepted : rec.Accepts name)
    (value : AsVal) : (rec.set name value).2.bins = AssocList.putLast rec.bins name value := by
  simp only [set, accepted, dite_true]

def setAll (rec : AsRecord) (settings : List (CStr × AsVal)) : AsRecord :=
  settings.foldl (fun rec setting => (rec.set setting.1 setting.2).2) rec

@[simp]
theorem capacity_setAll (rec : AsRecord) (settings : List (CStr × AsVal)) :
    (rec.setAll settings).capacity = rec.capacity := by
  induction settings generalizing rec with
  | nil => rfl
  | cons setting rest ih => exact (ih _).trans (capacity_set ..)

@[simp]
theorem gen_setAll (rec : AsRecord) (settings : List (CStr × AsVal)) :
    (rec.setAll settings).gen = rec.gen := by
  induction settings generalizing rec with
  | nil => rfl
  | cons setting rest ih => exact (ih _).trans (gen_set ..)

@[simp]
theorem ttl_setAll (rec : AsRecord) (settings : List (CStr × AsVal)) :
    (rec.setAll settings).ttl = rec.ttl := by
  induction settings generalizing rec with
  | nil => rfl
  | cons setting rest ih => exact (ih _).trans (ttl_set ..)

theorem mem_keys_set {rec : AsRecord} {name other : CStr} {value : AsVal}
    (member : other ∈ AssocList.keys (rec.set name value).2.bins) :
    other = name ∨ other ∈ AssocList.keys rec.bins := by
  by_cases accepted : rec.Accepts name
  · rw [bins_set_of_accepts accepted] at member
    exact (AssocList.mem_keys_put other).mp member
  · simp only [set, accepted, dite_false] at member
    exact Or.inr member

theorem mem_keys_setAll {rec : AsRecord} {settings : List (CStr × AsVal)} {name : CStr}
    (member : name ∈ AssocList.keys (rec.setAll settings).bins) :
    name ∈ AssocList.keys rec.bins ∨ name ∈ AssocList.keys settings := by
  induction settings generalizing rec with
  | nil => exact Or.inl member
  | cons setting rest ih =>
      rcases ih member with earlier | later
      · rcases mem_keys_set earlier with rfl | old
        · exact Or.inr List.mem_cons_self
        · exact Or.inl old
      · exact Or.inr (List.mem_cons_of_mem _ later)

/-- Where every name is short and the bins fit, every setting is made. -/
theorem bins_setAll {rec : AsRecord} {settings : List (CStr × AsVal)}
    (short : ∀ setting ∈ settings, setting.1.bytes.length ≤ asBinNameMaxLen)
    (room : (settings.foldl (fun bins setting => AssocList.putLast bins setting.1 setting.2)
      rec.bins).length ≤ rec.capacity) :
    (rec.setAll settings).bins =
      settings.foldl (fun bins setting => AssocList.putLast bins setting.1 setting.2)
        rec.bins := by
  induction settings generalizing rec with
  | nil => rfl
  | cons setting rest ih =>
      have accepted : rec.Accepts setting.1 :=
        ⟨short setting (by simp), AssocList.room_of_foldl_putLast room⟩
      have bins := bins_set_of_accepts accepted setting.2
      have done := @ih (rec.set setting.1 setting.2).2
        (fun other member => short other (by simp [member]))
        (by rw [bins, capacity_set]; exact room)
      rw [bins] at done
      exact done

end AsRecord

end AerospikeCRuby
