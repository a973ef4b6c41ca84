import CompassAdapters.Partition.PreseedLayout
import Mathlib.Algebra.BigOperators.Ring.Finset

/-! The percentages in the recipe of the preseed script. -/
namespace CompassAdapters.Partition.Preseed
open Shell Python KickstartLayout

/-- The percentage of a volume, zero where it has none. -/
def ownPercentage (v : Volume) : ℕ := ((percentText v).bind int).elim 0 Int.toNat

/-- The percentages of the listed volumes other than the default volume and `swap`. -/
def otherPercentages (o : Options) : ℕ :=
  (((volumes o.partition).filter fun v => v.name ≠ defaultVolume o ∧ v.name ≠ "swap").map
    ownPercentage).sum

/-- The percentages of a recipe add up. -/
structure AddsUp (o : Options) (es : List Entry) : Prop where
  keys_nodup : (es.map Entry.key).Nodup
  default : ∃ e ∈ es, e.key = defaultVolume o ∧
    e.percentage = if otherPercentages o < 100 then 100 - (otherPercentages o : ℤ) else 0
  own : ∀ v ∈ volumes o.partition, v.name ≠ defaultVolume o →
    ((percentText v).isSome = true ∨ v.name ≠ "swap") →
      ∃ e ∈ es, e.key = v.name ∧ e.percentage = ownPercentage v
  total : defaultVolume o ≠ "swap" →
    ((es.filter fun e => e.key ≠ "swap").map Entry.percentage).sum =
      max 100 (otherPercentages o : ℤ)

/-- Each percentage of the option is a natural number. -/
def NaturalPercentages (o : Options) : Prop :=
  ∀ v ∈ volumes o.partition, ∀ w ∈ percentText v, ∃ n : ℕ, w = toString n

section Loop

variable {o : Options} {st : Variables} {vs : List Volume}

theorem toString_ne_empty (n : ℕ) : toString n ≠ "" := Nat.repr_ne_empty

theorem ownPercentage_eq {v : Volume} {n : ℕ} (h : percentText v = some (toString n)) :
    ownPercentage v = n := by
  rw [ownPercentage, h, Option.bind_some, int_toString]
  rfl

theorem ownPercentage_none {v : Volume} (h : percentText v = none) : ownPercentage v = 0 := by
  rw [ownPercentage, h]
  rfl

/-- What the loop reads for the volumes of a list. -/
def Reads (st : Variables) (vs : List Volume) : Prop :=
  ∀ v ∈ vs, isName v.name = true ∧ st.partition_percentage.get v.name = (percentText v).getD ""

theorem subtractPercentage_skip {v : Volume} (h : v.name = st.defaultName ∨ v.name = "swap")
    (left : String) : subtractPercentage st left v.name = some left := by
  rw [subtractPercentage]
  rcases h with h | h
  · rw [if_pos h]
  · rw [if_pos h, ite_self]

theorem subtractPercentage_other {v : Volume} (hother : v.name ≠ st.defaultName ∧ v.name ≠ "swap")
    (hname : isName v.name = true)
    (hget : st.partition_percentage.get v.name = (percentText v).getD "")
    (hpercent : ∀ w ∈ percentText v, ∃ n : ℕ, n < 2 ^ 63 ∧ w = toString n) {a : ℕ}
    (ha : a ≤ 100) :
    subtractPercentage st (toString a) v.name = some (toString (a - ownPercentage v)) := by
  rw [subtractPercentage, if_neg hother.1, if_neg hother.2, Table.expand_of_isName _ hname,
    Option.bind_some, hget]
  cases htext : percentText v with
  | none =>
    rw [ownPercentage_none htext]
    rfl
  | some w =>
    obtain ⟨n, hn, rfl⟩ := hpercent w htext
    rw [Option.getD_some, if_neg (toString_ne_empty n), ownPercentage_eq htext,
      isGreater_toString (by omega) hn]
    by_cases hlt : n < a
    · rw [if_pos (decide_eq_true hlt), arithmetic_toString, arithmetic_toString,
        Option.bind_some, Option.map_some, ← Nat.cast_sub hlt.le]
      rfl
    · have hzero : a - n = 0 := by omega
      rw [if_neg (by simpa using hlt), hzero]
      rfl

/-- The loop subtracts the percentages of the other volumes, down to zero. -/
theorem foldlM_subtractPercentage (hreads : Reads st vs)
    (hpercent : ∀ v ∈ vs, v.name ≠ st.defaultName → ∀ w ∈ percentText v,
      ∃ n : ℕ, n < 2 ^ 63 ∧ w = toString n) {a : ℕ} (ha : a ≤ 100) :
    (vs.map Volume.name).foldlM (subtractPercentage st) (toString a) =
      some (toString (a - ((vs.filter fun v => v.name ≠ st.defaultName ∧ v.name ≠ "swap").map
        ownPercentage).sum)) := by
  induction vs generalizing a with
  | nil => rfl
  | cons v vs ih =>
    obtain ⟨⟨hname, hget⟩, hreads⟩ := List.forall_mem_cons.mp hreads
    obtain ⟨hv, hpercent⟩ := List.forall_mem_cons.mp hpercent
    rw [List.map_cons, List.foldlM_cons]
    by_cases hother : v.name ≠ st.defaultName ∧ v.name ≠ "swap"
    · have hle : a - ownPercentage v ≤ 100 := by omega
      rw [subtractPercentage_other hother hname hget (hv hother.1) ha,
        List.filter_cons_of_pos (by simpa using hother), List.map_cons, List.sum_cons,
        Nat.sub_add_eq]
      exact ih hreads hpercent hle
    · rw [subtractPercentage_skip (by tauto), List.filter_cons_of_neg (by simpa using hother)]
      exact ih hreads hpercent ha

end Loop

section Sums

variable {f : String → ℤ} {p : String → Bool} {ns : List String}

theorem sum_addName (x : String) : (((addName ns x).filter p).map f).sum =
    ((ns.filter p).map f).sum + if x ∈ ns ∨ p x = false then 0 else f x := by
  rw [addName]
  by_cases hx : x ∈ ns
  · rw [if_pos hx, if_pos (Or.inl hx), add_zero]
  · rw [if_neg hx, List.filter_append, List.map_append, List.sum_append]
    cases hp : p x with
    | true => simp [hp, hx]
    | false => simp [hp]

/-- One of the summands is taken out. -/
theorem sum_filter_split (hns : ns.Nodup) {d : String} (hd : p d = true) :
    ((ns.filter p).map f).sum =
      ((ns.filter fun x => x ≠ d ∧ p x = true).map f).sum + if d ∈ ns then f d else 0 := by
  induction ns with
  | nil => rfl
  | cons x ns ih =>
    rw [List.nodup_cons] at hns
    have hrest := ih hns.2
    by_cases hx : x = d
    · subst hx
      have hfilter : (ns.filter fun y => y ≠ x ∧ p y = true) = ns.filter p := by
        refine List.filter_congr fun y hy => ?_
        have hne : y ≠ x := fun h => hns.1 (h ▸ hy)
        simp [hne]
      rw [List.filter_cons_of_pos hd, List.filter_cons_of_neg (by simp), hfilter, List.map_cons,
        List.sum_cons, if_pos List.mem_cons_self, add_comm]
    · have hmem : d ∈ x :: ns ↔ d ∈ ns := by simp [Ne.symm hx]
      rw [if_congr hmem rfl rfl]
      cases hp : p x with
      | true =>
        rw [List.filter_cons_of_pos hp, List.filter_cons_of_pos (by simp [hx, hp]), List.map_cons,
          List.map_cons, List.sum_cons, List.sum_cons, hrest, add_assoc]
      | false =>
        rw [List.filter_cons_of_neg (by simp [hp]), List.filter_cons_of_neg (by simp [hp]), hrest]

end Sums

section Final

variable {o : Options} {st : Variables}

theorem no_blank_toString (n : ℕ) : ∀ c ∈ (toString n).toList, isBlank c = false :=
  fun _ hc => isBlank_of_isDigit (isDigit_of_mem_toString hc)

theorem isName_defaultVolume (hnames : ∀ v ∈ volumes o.partition, isName v.name = true) :
    isName (defaultVolume o) = true := by
  rcases defaultVolume_cases o with hmem | hroot
  · obtain ⟨v, hv, hname⟩ := List.mem_map.mp hmem
    exact hname ▸ hnames v hv
  · rw [hroot]
    decide

/-- The percentage that is written for a volume, from the variables of the options. -/
def written (st : Variables) (d : String) (r : ℕ) (key : String) : ℤ :=
  (number (orDefault (if key = d then toString r
    else if key = "swap" ∧ st.partition_percentage.get "swap" = "" then "10"
    else st.partition_percentage.get key) "0")).getD 0

theorem percentage_entryOf (h : Rendered o st)
    (hnames : ∀ v ∈ volumes o.partition, isName v.name = true) (r : ℕ) (key : String) :
    (entryOf (finalVariables st (toString r)) key).percentage =
      written st (defaultVolume o) r key := by
  have htable : (finalVariables st (toString r)).partition_percentage =
      Table.setDefault (Function.update st.partition_percentage (defaultVolume o)
        (some (toString r))) "swap" "10" := by
    rw [finalVariables, addImplicit_partition_percentage]
    dsimp only
    rw [h.defaultName, Table.assign_of_isName _ (isName_defaultVolume hnames) (no_blank_toString r)]
  rw [Entry.percentage, entryOf, written]
  dsimp only
  rw [htable, Table.get_setDefault, Table.get_update, Table.get_update]
  -- the rest is not empty, so that it is kept even for `swap`
  have htext : (if key = "swap" ∧ (if "swap" = defaultVolume o then toString r
        else st.partition_percentage.get "swap") = "" then "10"
      else if key = defaultVolume o then toString r else st.partition_percentage.get key) =
      if key = defaultVolume o then toString r
      else if key = "swap" ∧ st.partition_percentage.get "swap" = "" then "10"
      else st.partition_percentage.get key := by
    by_cases hkey : key = defaultVolume o
    · rw [if_pos hkey, if_pos hkey, if_neg]
      rintro ⟨hswap, hempty⟩
      rw [if_pos (hswap.symm.trans hkey)] at hempty
      exact toString_ne_empty r hempty
    · rw [if_neg hkey, if_neg hkey]
      by_cases hswap : key = "swap"
      · have hd : "swap" ≠ defaultVolume o := hswap ▸ hkey
        rw [if_neg hd]
      · rw [if_neg fun h => hswap h.1, if_neg fun h => hswap h.1]
  rw [htext]

theorem written_default {d : String} {r : ℕ} (hr : r < 2 ^ 63) : written st d r d = r := by
  rw [written, if_pos rfl, orDefault, if_neg (toString_ne_empty r), number_toString hr]
  rfl

theorem written_own {d : String} {r : ℕ} {v : Volume} (hd : v.name ≠ d)
    (hget : st.partition_percentage.get v.name = (percentText v).getD "")
    (hpercent : ∀ w ∈ percentText v, ∃ n : ℕ, n < 2 ^ 63 ∧ w = toString n)
    (hkind : (percentText v).isSome = true ∨ v.name ≠ "swap") :
    written st d r v.name = ownPercentage v := by
  rw [written, if_neg hd]
  cases htext : percentText v with
  | none =>
    rw [htext] at hkind hget
    have hswap : v.name ≠ "swap" := hkind.resolve_left (by decide)
    rw [if_neg fun h => hswap h.1, hget, ownPercentage_none htext]
    decide
  | some w =>
    obtain ⟨n, hn, rfl⟩ := hpercent w htext
    have hne : st.partition_percentage.get v.name ≠ "" := by
      rw [hget, htext]
      exact toString_ne_empty n
    have hskip : ¬(v.name = "swap" ∧ st.partition_percentage.get "swap" = "") := by
      rintro ⟨hswap, hempty⟩
      exact hne (hswap ▸ hempty)
    rw [if_neg hskip, hget, htext, Option.getD_some, orDefault, if_neg (toString_ne_empty n),
      number_toString hn, ownPercentage_eq htext]
    rfl

theorem written_unlisted {d key : String} {r : ℕ} (hd : key ≠ d) (hswap : key ≠ "swap")
    (hget : st.partition_percentage.get key = "") : written st d r key = 0 := by
  rw [written, if_neg hd, if_neg fun h => hswap h.1, hget]
  decide

end Final

section Law

variable {o : Options} {st : Variables}

theorem Rendered.reads (h : Rendered o st)
    (hnodup : ((volumes o.partition).map Volume.name).Nodup)
    (hnames : ∀ v ∈ volumes o.partition, isName v.name = true)
    (hnatural : NaturalPercentages o) : Reads st (volumes o.partition) ∧
      ∀ x, x ∉ (volumes o.partition).map Volume.name → st.partition_percentage.get x = "" := by
  rw [Reads, h.percentage]
  constructor
  · intro v hv
    have hvalue : ∀ w ∈ percentText v, ∀ c ∈ w.toList, isBlank c = false := by
      intro w hw
      obtain ⟨n, rfl⟩ := hnatural v hv w hw
      exact no_blank_toString n
    exact ⟨hnames v hv, Table.get_fill_unset Volume.name percentText hnodup hv (hnames v hv) hvalue⟩
  · intro x hx
    rw [Table.get, (Table.unset.fill_spec Volume.name percentText hnodup).2 x hx]
    rfl

/-- The sum over the listed volumes other than the default one and `swap`. -/
theorem sum_others {r : ℕ} (hreads : Reads st (volumes o.partition))
    (hpercent : ∀ v ∈ volumes o.partition, v.name ≠ defaultVolume o → ∀ w ∈ percentText v,
      ∃ n : ℕ, n < 2 ^ 63 ∧ w = toString n) :
    ((((volumes o.partition).map Volume.name).filter fun x =>
      x ≠ defaultVolume o ∧ decide (x ≠ "swap") = true).map (written st (defaultVolume o) r)).sum =
        otherPercentages o := by
  rw [List.filter_map, List.map_map, otherPercentages, Nat.cast_list_sum, List.map_map]
  have hfilter : ((volumes o.partition).filter ((fun x =>
      decide (x ≠ defaultVolume o ∧ decide (x ≠ "swap") = true)) ∘ Volume.name)) =
      (volumes o.partition).filter fun v => v.name ≠ defaultVolume o ∧ v.name ≠ "swap" := by
    refine List.filter_congr fun v _ => ?_
    simp
  rw [hfilter]
  refine congrArg List.sum (List.map_congr_left fun v hv => ?_)
  obtain ⟨hv, hother⟩ := List.mem_filter.mp hv
  rw [decide_eq_true_eq] at hother
  have hown : written st (defaultVolume o) r v.name = ownPercentage v :=
    written_own hother.1 (hreads v hv).2 (hpercent v hv hother.1) (Or.inr hother.2)
  rw [Function.comp_apply, Function.comp_apply, hown]

/-- A name that is added to the recipe and is not the default one adds nothing. -/
theorem written_added {key : String} {r : ℕ}
    (hkey : key ∉ (volumes o.partition).map Volume.name) (hd : key ≠ defaultVolume o)
    (hswap : key ≠ "swap")
    (hunlisted : ∀ x, x ∉ (volumes o.partition).map Volume.name →
      st.partition_percentage.get x = "") :
    written st (defaultVolume o) r key = 0 :=
  written_unlisted hd hswap (hunlisted key hkey)

theorem boot_ne_defaultVolume (hboot : "boot" ∉ (volumes o.partition).map Volume.name) :
    "boot" ≠ defaultVolume o := by
  intro hdefault
  rcases defaultVolume_cases o with h | h
  · exact hboot (hdefault ▸ h)
  · rw [h] at hdefault
    exact absurd hdefault (by decide)

/-- The default volume is listed, or it is `root`, which is added. -/
theorem written_default_root {r : ℕ} (hr : r < 2 ^ 63)
    (hunlisted : ∀ x, x ∉ (volumes o.partition).map Volume.name →
      st.partition_percentage.get x = "") :
    (if defaultVolume o ∈ (volumes o.partition).map Volume.name then (r : ℤ) else 0) +
      (if "root" ∈ (volumes o.partition).map Volume.name then 0
        else written st (defaultVolume o) r "root") = r := by
  by_cases hmem : defaultVolume o ∈ (volumes o.partition).map Volume.name
  · rw [if_pos hmem]
    split
    next => exact add_zero _
    next hlacks =>
      have hne : "root" ≠ defaultVolume o := fun h => hlacks (h ▸ hmem)
      rw [written_added hlacks hne (by decide) hunlisted, add_zero]
  · have hdefault : defaultVolume o = "root" := (defaultVolume_cases o).resolve_left hmem
    rw [hdefault] at hmem
    rw [hdefault, if_neg hmem, if_neg hmem, written_default hr, zero_add]

/-- The sum over the names in the recipe. -/
theorem sum_written {r : ℕ} (hr : r < 2 ^ 63) (hreads : Reads st (volumes o.partition))
    (hunlisted : ∀ x, x ∉ (volumes o.partition).map Volume.name →
      st.partition_percentage.get x = "")
    (hnodup : ((volumes o.partition).map Volume.name).Nodup)
    (hpercent : ∀ v ∈ volumes o.partition, v.name ≠ defaultVolume o → ∀ w ∈ percentText v,
      ∃ n : ℕ, n < 2 ^ 63 ∧ w = toString n)
    (hd : defaultVolume o ≠ "swap") :
    (((allNames ((volumes o.partition).map Volume.name)).filter fun x => x ≠ "swap").map
      (written st (defaultVolume o) r)).sum = otherPercentages o + r := by
  have hswap : decide (defaultVolume o ≠ "swap") = true := decide_eq_true hd
  have hsplit := sum_filter_split (f := written st (defaultVolume o) r)
    (p := fun x => decide (x ≠ "swap")) hnodup hswap
  rw [sum_others hreads hpercent, written_default hr] at hsplit
  have hboot : (if "boot" ∈ (volumes o.partition).map Volume.name ∨ decide ("boot" ≠ "swap") = false
      then 0 else written st (defaultVolume o) r "boot") = 0 := by
    split
    next => rfl
    next hmem =>
      rw [not_or] at hmem
      exact written_added hmem.1 (boot_ne_defaultVolume hmem.1) (by decide) hunlisted
  have hroot : ("root" ∈ addName (addName ((volumes o.partition).map Volume.name) "boot") "swap" ∨
      decide ("root" ≠ "swap") = false) ↔ "root" ∈ (volumes o.partition).map Volume.name := by
    simp [mem_addName]
  rw [allNames, sum_addName, sum_addName, sum_addName, hsplit, hboot, if_pos (Or.inr (by decide)),
    if_congr hroot rfl rfl, add_zero, add_zero, add_assoc, written_default_root hr hunlisted]

/-- The recipe has one entry for each name. -/
theorem recipe_eq (hrender : render o = some st)
    (hnodup : ((volumes o.partition).map Volume.name).Nodup)
    (hnames : ∀ v ∈ volumes o.partition, isName v.name = true)
    (hreads : Reads st (volumes o.partition))
    (hpercent : ∀ v ∈ volumes o.partition, v.name ≠ defaultVolume o → ∀ w ∈ percentText v,
      ∃ n : ℕ, n < 2 ^ 63 ∧ w = toString n) :
    recipe o = some ((allNames ((volumes o.partition).map Volume.name)).map
      (entryOf (finalVariables st (toString (100 - otherPercentages o))))) := by
  have hrendered := render_spec hrender
  rw [← hrendered.defaultName] at hpercent
  have hloop := foldlM_subtractPercentage hreads hpercent (le_refl 100)
  rw [hrendered.defaultName] at hloop
  have hns : ∀ n ∈ (volumes o.partition).map Volume.name, isName n = true := by
    intro n hn
    obtain ⟨v, hv, rfl⟩ := List.mem_map.mp hn
    exact hnames v hv
  rw [recipe, hrender, Option.bind_some, recipeOf_eq (hrendered.listed hnodup hnames) hns]
  exact congrArg (Option.map _) hloop

/-- A recipe with one entry for each name adds up if the percentages in it are those `written`. -/
theorem addsUp_map {F : Variables} {r : ℕ} (hr : r = 100 - otherPercentages o)
    (hentry : ∀ x, (entryOf F x).percentage = written st (defaultVolume o) r x)
    (hreads : Reads st (volumes o.partition))
    (hunlisted : ∀ x, x ∉ (volumes o.partition).map Volume.name →
      st.partition_percentage.get x = "")
    (hnodup : ((volumes o.partition).map Volume.name).Nodup)
    (hpercent : ∀ v ∈ volumes o.partition, v.name ≠ defaultVolume o → ∀ w ∈ percentText v,
      ∃ n : ℕ, n < 2 ^ 63 ∧ w = toString n) :
    AddsUp o ((allNames ((volumes o.partition).map Volume.name)).map (entryOf F)) := by
  have hbound : r < 2 ^ 63 := by omega
  have hlisted {x : String} (hx : x ∈ (volumes o.partition).map Volume.name ∨ x = "root") :
      entryOf F x ∈ (allNames ((volumes o.partition).map Volume.name)).map (entryOf F) := by
    refine List.mem_map_of_mem ?_
    rw [allNames, mem_addName, mem_addName, mem_addName]
    rcases hx with hx | hx
    · exact Or.inl (Or.inl (Or.inl hx))
    · exact Or.inr hx
  refine ⟨?_, ⟨_, hlisted (defaultVolume_cases o), rfl, ?_⟩, fun v hv hd hkind =>
    ⟨_, hlisted (Or.inl (List.mem_map_of_mem hv)), rfl, ?_⟩, fun hd => ?_⟩
  · have hkey : Entry.key ∘ entryOf F = id := rfl
    rw [List.map_map, hkey, List.map_id]
    exact nodup_addName (nodup_addName (nodup_addName hnodup))
  · rw [hentry, written_default hbound]
    split
    next hlt => omega
    next hge => omega
  · rw [hentry]
    exact written_own hd (hreads v hv).2 (hpercent v hv hd) hkind
  · have hfilter (ns : List String) :
        ((ns.map (entryOf F)).filter fun e => e.key ≠ "swap").map Entry.percentage =
          (ns.filter fun x => x ≠ "swap").map (written st (defaultVolume o) r) := by
      have hkey (x : String) : (entryOf F x).key = x := rfl
      rw [List.filter_map, List.map_map]
      simp only [Function.comp_def, hkey, hentry]
    rw [hfilter, sum_written hbound hreads hunlisted hnodup hpercent hd]
    omega

theorem isSome_render_swapVar : (render (listing "swap 4G;/var 30%")).isSome = true := by
  decide +kernel

theorem naturalPercentages_swapVar : NaturalPercentages (listing "swap 4G;/var 30%") := by
  have hvolumes : volumes (listing "swap 4G;/var 30%").partition =
      [⟨"swap", "swap", "4G"⟩, ⟨"/var", "var", "30%"⟩] := by decide +kernel
  rw [NaturalPercentages, hvolumes]
  have hswap : percentText ⟨"swap", "swap", "4G"⟩ = none := by decide +kernel
  have hvar : percentText ⟨"/var", "var", "30%"⟩ = some (toString 30) := by decide +kernel
  intro v hv w hw
  simp only [List.mem_cons, List.not_mem_nil, or_false] at hv
  rcases hv with rfl | rfl
  · rw [hswap] at hw
    cases hw
  · rw [hvar] at hw
    exact ⟨30, (Option.some.inj hw).symm⟩

end Law

end CompassAdapters.Partition.Preseed
