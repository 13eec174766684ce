import Mathlib.Data.Finmap

/-! Hash maps by what they hold, and the operations on them that `Finmap` lacks. -/

namespace Lib

abbrev HashMap (α β : Type) := Finmap fun _ : α => β

namespace HashMap

variable {α β γ : Type} [DecidableEq α]

def len (m : HashMap α β) : ℕ := m.keys.card

/-- Every value replaced by a function of it. -/
def mapVal (f : β → γ) (m : HashMap α β) : HashMap α γ :=
  Finmap.keysLookupEquiv.symm ⟨(m.keys, fun a => (m.lookup a).map f), fun a => by
    rw [Option.isSome_map, Finmap.lookup_isSome, Finmap.mem_keys]⟩

@[simp] theorem lookup_mapVal (f : β → γ) (m : HashMap α β) (a : α) :
    (mapVal f m).lookup a = (m.lookup a).map f :=
  Finmap.keysLookupEquiv_symm_apply_lookup _ a

theorem lookup_insert (m : HashMap α β) (a a' : α) (b : β) :
    (m.insert a b).lookup a' = if a' = a then some b else m.lookup a' := by
  split_ifs with h
  · subst h
    exact Finmap.lookup_insert m
  · exact Finmap.lookup_insert_of_ne m h

theorem lookup_erase (m : HashMap α β) (a a' : α) :
    (m.erase a).lookup a' = if a' = a then none else m.lookup a' := by
  split_ifs with h
  · subst h
    exact Finmap.lookup_erase a' m
  · exact Finmap.lookup_erase_ne h

theorem keys_insert (m : HashMap α β) (a : α) (b : β) : (m.insert a b).keys = insert a m.keys := by
  ext a'
  rw [Finmap.mem_keys, Finmap.mem_insert, Finset.mem_insert, Finmap.mem_keys]

theorem insert_of_lookup {m : HashMap α β} {a : α} {b : β} (h : m.lookup a = some b) :
    m.insert a b = m := by
  apply Finmap.ext_lookup
  intro a'
  rw [lookup_insert]
  split_ifs with heq
  · rw [heq, h]
  · rfl

/-- What the map holds, whatever the keys. -/
def values (m : HashMap α β) : Multiset β := m.entries.map Sigma.snd

theorem values_insert {m : HashMap α β} {a : α} (h : m.lookup a = none) (b : β) :
    values (m.insert a b) = b ::ₘ values m := by
  unfold values
  rw [Finmap.entries_insert_of_notMem (Finmap.lookup_eq_none.mp h), Multiset.map_cons]

theorem values_erase {m : HashMap α β} {a : α} {b : β} (h : m.lookup a = some b) :
    values m = b ::ₘ values (m.erase a) := by
  have hm : m = (m.erase a).insert a b := by
    apply Finmap.ext_lookup
    intro a'
    rw [lookup_insert, lookup_erase]
    split_ifs with heq
    · rw [heq, h]
    · rfl
  have herased : (m.erase a).lookup a = none := by rw [lookup_erase, if_pos rfl]
  rw [← values_insert herased, ← hm]

theorem values_replace (m : HashMap α β) (a : α) (b : β) :
    values (m.insert a b) = b ::ₘ values (m.erase a) := by
  have herased : (m.insert a b).erase a = m.erase a := by
    apply Finmap.ext_lookup
    intro a'
    simp only [lookup_erase, lookup_insert]
    split_ifs <;> rfl
  rw [values_erase (Finmap.lookup_insert m), herased]

end HashMap

end Lib
