import Mathlib.Data.List.Sort
import Mathlib.Data.String.Basic
import Mathlib.Logic.Function.Basic

/-! The Chef server as the recipes of many nodes share it: node objects that are found by a
search and written back as a whole, and claims that only one node may hold. -/
namespace CompassAdapters.Chef

/-- The nodes of one role in one environment. -/
structure Server (ω : Type*) where
  registered : List String
  object : String → ω

namespace Server

variable {ω : Type*} (sv : Server ω)

def register (n : String) (o : ω) : Server ω :=
  ⟨sv.registered ++ [n], Function.update sv.object n o⟩

/-- `node.save` writes the whole object. -/
def save (n : String) (o : ω) : Server ω := { sv with object := Function.update sv.object n o }

def search (p : ω → Bool) : List String := sv.registered.filter fun n => p (sv.object n)

theorem mem_search {p : ω → Bool} {n : String} :
    n ∈ sv.search p ↔ n ∈ sv.registered ∧ p (sv.object n) = true := List.mem_filter

@[simp] theorem save_object (n : String) : sv.save n (sv.object n) = sv := by
  simp [save]

end Server

/-- `sort_by { |node| node.name }`. -/
def sortByName (ns : List String) : List String := ns.insertionSort (· ≤ ·)

theorem mem_sortByName {ns : List String} {n : String} : n ∈ sortByName ns ↔ n ∈ ns :=
  (List.perm_insertionSort _ ns).mem_iff

/-- A list without duplicates whose members are all the same has at most one. -/
theorem length_le_one_of_nodup {α : Type*} {xs : List α} (hxs : xs.Nodup)
    (h : ∀ a ∈ xs, ∀ b ∈ xs, a = b) : xs.length ≤ 1 := by
  rcases xs with - | ⟨a, - | ⟨b, xs⟩⟩
  · simp
  · simp
  · have hab : a = b := h a (by simp) b (by simp)
    simp [hab] at hxs

section Claims
variable {ν : Type*}

/-- No two nodes hold the claim. -/
def Sole (claimed : ν → Prop) : Prop := ∀ a b, claimed a → claimed b → a = b

theorem Sole.mono {c d : ν → Prop} (h : Sole c) (hd : ∀ a, d a → c a) : Sole d :=
  fun a b ha hb => h a b (hd a ha) (hd b hb)

/-- A claim may be taken by `n` when no other node holds it. -/
theorem Sole.take {c d : ν → Prop} {n : ν} (h : Sole c) (hd : ∀ a, a ≠ n → d a → c a)
    (hn : d n → ∀ a, c a → a = n) : Sole d := by
  have hother : ∀ a, d a → d n → a = n := fun a ha hdn => by
    by_contra hne
    exact hne (hn hdn a (hd a hne ha))
  intro a b ha hb
  by_cases han : a = n
  · subst han
    exact (hother b hb ha).symm
  · by_cases hbn : b = n
    · subst hbn
      exact hother a ha hb
    · exact h a b (hd a han ha) (hd b hbn hb)

end Claims

/-- The runs of the nodes in their phases: who is registered, and that one node at most is
tagged or about to save its tag. -/
structure Claims {ω π : Type*} (tagged : ω → Bool) (tagging : π → Bool) (idle : π)
    (sv : Server ω) (phase : String → π) : Prop where
  registered : sv.registered.Nodup
  running : ∀ n, phase n ≠ idle → n ∈ sv.registered
  found : ∀ n, tagged (sv.object n) = true → n ∈ sv.registered
  sole : Sole fun n => (tagged (sv.object n) || tagging (phase n)) = true

namespace Claims

variable {ω π : Type*} {tagged : ω → Bool} {tagging : π → Bool} {idle : π} {sv : Server ω}
  {phase : String → π} (h : Claims tagged tagging idle sv phase) {n : String}
include h

theorem mem_registered (hidle : tagging idle = false)
    (hn : (tagged (sv.object n) || tagging (phase n)) = true) : n ∈ sv.registered := by
  rcases Bool.or_eq_true_iff.mp hn with hn | hn
  · exact h.found n hn
  · apply h.running n
    intro he
    rw [he, hidle] at hn
    cases hn

theorem register (hn : n ∉ sv.registered) {o : ω} (ho : tagged o = false) :
    Claims tagged tagging idle (sv.register n o) phase where
  registered := by
    show (sv.registered ++ [n]).Nodup
    rw [← List.concat_eq_append]
    exact h.registered.concat hn
  running m hm := List.mem_append_left _ (h.running m hm)
  found m hm := by
    by_cases hmn : m = n
    · subst hmn
      simp [Server.register, ho] at hm
    · apply List.mem_append_left
      apply h.found m
      simpa [Server.register, hmn] using hm
  sole := by
    apply h.sole.mono
    intro a ha
    by_cases han : a = n
    · subst han
      simp [Server.register, ho] at ha
      simp [ha]
    · simpa [Server.register, han] using ha

/-- What a registered node writes of itself must leave it alone with a claim. -/
theorem write (hn : n ∈ sv.registered) {o : ω} {ph : π}
    (hclaim : (tagged o || tagging ph) = true →
      ∀ a, (tagged (sv.object a) || tagging (phase a)) = true → a = n) :
    Claims tagged tagging idle (sv.save n o) (Function.update phase n ph) where
  registered := h.registered
  running m hm := by
    by_cases hmn : m = n
    · exact hmn ▸ hn
    · apply h.running m
      simpa [hmn] using hm
  found m hm := by
    by_cases hmn : m = n
    · exact hmn ▸ hn
    · apply h.found m
      simpa [Server.save, hmn] using hm
  sole := by
    apply h.sole.take (n := n)
    · intro a ha hclaimed
      simpa [Server.save, ha] using hclaimed
    · intro hclaimed
      apply hclaim
      simpa [Server.save] using hclaimed

/-- A move to a phase without a claim keeps the tag as it is. -/
theorem move (hn : n ∈ sv.registered) {ph : π} (hph : tagging ph = false) :
    Claims tagged tagging idle sv (Function.update phase n ph) := by
  rw [← sv.save_object n]
  apply h.write hn
  intro hc a ha
  rw [hph, Bool.or_false] at hc
  exact h.sole a n ha (by simp [hc])

/-- A search for the tag finds one node at most. -/
theorem length_le_one {found : List String} (hfound : found.Perm (sv.search tagged)) :
    found.length ≤ 1 := by
  have htagged : ∀ m ∈ found, tagged (sv.object m) = true := fun m hm =>
    (sv.mem_search.mp (hfound.mem_iff.mp hm)).2
  apply length_le_one_of_nodup
  · exact hfound.nodup_iff.mpr (h.registered.filter _)
  · intro a ha b hb
    exact h.sole a b (by simp [htagged a ha]) (by simp [htagged b hb])

end Claims

end CompassAdapters.Chef
