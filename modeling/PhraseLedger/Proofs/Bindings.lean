import Mathlib.Tactic.SplitIfs
import PhraseLedger.Proofs.Lookups
import PhraseLedger.Settings.Reader

/-!
# Bindings of fields

Settings are nothing but the values of their fields.  Binding fields one after the other gives
each of them the value that it is bound to last and leaves the others as they are, and settings
are valid when none of the counts among their fields is zero.

Main definitions:

- Definition {lit}`Field.isCount`: the fields that must not be zero.

Main results:

- Theorem {lit}`Settings.get_bind`: the fields of settings behind bindings.
- Theorem {lit}`Settings.validate_eq_ok_iff`: the settings that are valid.
- Theorem {lit}`Field.ofName?_eq_some_iff`: the fields by their names.
-/

namespace PhraseLedger

namespace Field

/-- Whether a field counts something of which there must be at least one. -/
def isCount : Field → Bool
  | .splitThreshold => false
  | _ => true

theorem mem_all (field : Field) : field ∈ all := by
  cases field <;> decide

theorem nodup_all : all.Nodup := by decide

/-- A field is found by its name only. -/
theorem ofName?_eq_some_iff {name : Text} {field : Field} :
    ofName? name = some field ↔ name = Text.ofString field.name := by
  constructor
  · intro hfound
    rw [ofName?] at hfound
    have hname := List.find?_some hfound
    exact (beq_iff_eq.mp hname).symm
  · rintro rfl
    cases field <;> decide

/-- Fields have different names. -/
theorem ofString_name_inj {field other : Field} :
    Text.ofString field.name = Text.ofString other.name ↔ field = other := by
  constructor
  · intro hname
    have hfield := ofName?_eq_some_iff.mpr hname
    rw [ofName?_eq_some_iff.mpr rfl] at hfield
    exact Option.some.inj hfield
  · rintro rfl
    rfl

/-- The names of the fields are ASCII. -/
theorem name_ascii (field : Field) : ∀ byte ∈ Text.ofString field.name, byte < 0x80 := by
  have hall : ((Text.ofString field.name).all fun byte => byte < 0x80) = true := by
    cases field <;> decide
  exact fun byte hbyte => of_decide_eq_true (List.all_eq_true.mp hall byte hbyte)

end Field

namespace Settings

variable {settings other : Settings} {bindings others : Bindings} {field : Field}

theorem get_set (settings : Settings) (field : Field) (value : Nat) (other : Field) :
    (settings.set field value).get other = if other = field then value else settings.get other := by
  cases field <;> cases other <;> rfl

/-- Settings are the values of their fields. -/
theorem ext_get (h : ∀ field, settings.get field = other.get field) : settings = other := by
  have hpool := h .poolSize
  have hparallelism := h .parallelism
  have hfragments := h .fragmentWorkers
  have hthreshold := h .splitThreshold
  cases settings
  cases other
  simp only [get] at *
  simp only [*]

theorem bind_cons (settings : Settings) (binding : Field × Nat) (bindings : Bindings) :
    settings.bind (binding :: bindings) = (settings.set binding.1 binding.2).bind bindings := rfl

/-- A field has the value that it is bound to last, or its old one if it is not bound. -/
theorem get_bind (settings : Settings) (bindings : Bindings) (field : Field) :
    (settings.bind bindings).get field =
      (bindings.reverse.lookup field).getD (settings.get field) := by
  -- Read backwards, the bindings have the one that counts at the front.
  induction bindings generalizing settings with
  | nil => rfl
  | cons binding bindings ih =>
      rcases binding with ⟨bound, value⟩
      rw [bind_cons, ih, get_set, List.reverse_cons, List.lookup_append, List.lookup_cons,
        List.lookup_nil]
      cases hlast : bindings.reverse.lookup field with
      | some value => rfl
      | none =>
          by_cases hfield : field = bound
          · simp [hfield]
          · simp [hfield, beq_false_of_ne hfield]

/-- A field that is bound once has the value that it is bound to. -/
theorem get_bind_of_nodup (hkeys : (bindings.map Prod.fst).Nodup) (settings : Settings)
    (field : Field) :
    (settings.bind bindings).get field = (bindings.lookup field).getD (settings.get field) := by
  rw [get_bind, ← lookup_eq_of_perm hkeys (List.reverse_perm bindings).symm]

/-- The order of bindings is of no account if each field is bound once. -/
theorem bind_eq_of_perm (hkeys : (bindings.map Prod.fst).Nodup) (hperm : bindings.Perm others)
    (settings : Settings) : settings.bind bindings = settings.bind others := by
  have hothers : (others.map Prod.fst).Nodup := (hperm.map Prod.fst).nodup_iff.mp hkeys
  refine ext_get fun field => ?_
  rw [get_bind_of_nodup hkeys, get_bind_of_nodup hothers, lookup_eq_of_perm hkeys hperm]

/-- Settings that differ in bound fields only are the same behind the bindings. -/
theorem bind_congr
    (hagree : ∀ field, bindings.lookup field = none → settings.get field = other.get field) :
    settings.bind bindings = other.bind bindings := by
  refine ext_get fun field => ?_
  rw [get_bind, get_bind]
  cases hlast : bindings.reverse.lookup field with
  | some value => rfl
  | none =>
      rw [lookup_eq_none_iff_not_mem, List.map_reverse, List.mem_reverse,
        ← lookup_eq_none_iff_not_mem] at hlast
      exact hagree field hlast

/-! ## Validity -/

/-- Only which counts are zero decides what is wrong with settings. -/
theorem validate_congr
    (h : ∀ field, field.isCount = true → (settings.get field = 0 ↔ other.get field = 0)) :
    settings.validate = other.validate := by
  have hpool : settings.poolSize = 0 ↔ other.poolSize = 0 := h .poolSize rfl
  have hparallelism : settings.parallelism = 0 ↔ other.parallelism = 0 := h .parallelism rfl
  have hfragments : settings.fragmentWorkers = 0 ↔ other.fragmentWorkers = 0 :=
    h .fragmentWorkers rfl
  simp only [validate, hpool, hparallelism, hfragments]

/-- Settings are valid when none of their counts is zero. -/
theorem validate_eq_ok_iff : settings.validate = .ok () ↔
    0 < settings.poolSize ∧ 0 < settings.parallelism ∧ 0 < settings.fragmentWorkers := by
  rw [validate]
  split_ifs <;> simp <;> omega

/-- No count of valid settings is zero. -/
theorem get_ne_zero_of_validate (hvalid : settings.validate = .ok ())
    (hcount : field.isCount = true) : settings.get field ≠ 0 := by
  rcases validate_eq_ok_iff.mp hvalid with ⟨hpool, hparallelism, hfragments⟩
  cases field with
  | poolSize => exact Nat.pos_iff_ne_zero.mp hpool
  | parallelism => exact Nat.pos_iff_ne_zero.mp hparallelism
  | fragmentWorkers => exact Nat.pos_iff_ne_zero.mp hfragments
  | splitThreshold => cases hcount

end Settings

end PhraseLedger
