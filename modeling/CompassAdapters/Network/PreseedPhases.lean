import CompassAdapters.Network.Leftover
import CompassAdapters.Network.PreseedMapping

/-! The phases of `preseed_post_install_network_config` as the pairs that they store. -/
namespace CompassAdapters.Network.Preseed
open Shell Matching Machine

/-- A name of letters, digits and underscores that the variables of one family for it cannot be
mistaken for those of another: `physical_interface_mac_x` is also made from the name `mac_x`. -/
structure IsPlain (w : String) : Prop where
  isName : isName w = true
  apart : ¬ "mac_".toList.isPrefixOf w.toList ∧ ¬ "mapping_".toList.isPrefixOf w.toList

/-- Letters, digits and colons. -/
def IsAddress (mac : String) : Prop := ∀ c ∈ mac.toList, c.isAlphanum = true ∨ c = ':'

instance (w : String) : Decidable (IsPlain w) :=
  decidable_of_iff (isName w = true ∧
      ¬ "mac_".toList.isPrefixOf w.toList ∧ ¬ "mapping_".toList.isPrefixOf w.toList)
    ⟨fun h => ⟨h.1, h.2⟩, fun h => ⟨h.1, h.2⟩⟩

instance (mac : String) : Decidable (IsAddress mac) := by
  unfold IsAddress
  infer_instance

/-- A machine as the script meets it: what `ip link show` prints, names that may stand in the
names of variables, and well-formed addresses. -/
structure Host extends Machine where
  link : String → LinkShow
  nic_plain : ∀ nic ∈ nics, IsPlain nic.name
  nic_address : ∀ nic ∈ nics, IsAddress (upper nic.mac)
  entry_plain : ∀ e ∈ entries interfaces, IsPlain e.1
  entry_address : ∀ e ∈ entries interfaces, IsAddress e.2

/-- The colons can be told from the names of the variables. -/
theorem macName_inj {mac mac' : String} (h : IsAddress mac) (h' : IsAddress mac')
    (he : macName mac = macName mac') : mac = mac' := by
  have hback (mac : String) (h : IsAddress mac) : Shell.translate '_' ':' (macName mac) = mac := by
    rw [macName, Shell.translate, Shell.translate, String.toList_ofList, List.map_map]
    conv_rhs => rw [← String.ofList_toList (s := mac), ← List.map_id mac.toList]
    apply congrArg String.ofList
    apply List.map_congr_left
    intro c hc
    by_cases hcolon : c = ':'
    · subst hcolon
      rfl
    · have hunder : c ≠ '_' := by
        rintro rfl
        rcases h '_' hc with halpha | hcolon'
        · exact absurd halpha (by decide)
        · exact hcolon hcolon'
      simp [hcolon, hunder]
  rw [← hback mac h, he, hback mac' h']

section Cards

variable (h : Host)

theorem physical_interface_eq (x : String) :
    (readCards h.link h.nics).physical_interface x = "" ↔ x ∉ h.physical := by
  obtain ⟨hin, hout⟩ := Family.foldl_update_spec Nic.name Nic.name h.nics_nodup Family.unset
  constructor
  · intro he hx
    obtain ⟨nic, hnic, rfl⟩ := List.mem_map.mp hx
    exact (h.nic_word nic hnic).ne_empty ((hin nic hnic).symm.trans he)
  · exact hout x

theorem get_mac_interface {e : String × String} (he : e ∈ entries h.interfaces) :
    (readCards h.link h.nics).physical_mac_interface (macName e.2) = h.card e.2 := by
  have hnodup : (h.nics.map fun nic => macName (upper nic.mac)).Nodup := by
    rw [List.nodup_map_iff_inj_on (List.Nodup.of_map _ h.macs_nodup)]
    intro nic hnic nic' hnic' hmac
    exact List.inj_on_of_nodup_map h.macs_nodup hnic hnic'
      (macName_inj (h.nic_address nic hnic) (h.nic_address nic' hnic') hmac)
  obtain ⟨hin, hout⟩ := Family.foldl_update_spec (fun nic : Nic => macName (upper nic.mac))
    Nic.name hnodup Family.unset
  by_cases hex : ∃ nic ∈ h.nics, upper nic.mac = e.2
  · obtain ⟨nic, hnic, hmac⟩ := hex
    rw [← hmac]
    exact (hin nic hnic).trans (card_eq hnic).symm
  · have hempty : h.card e.2 = "" := by
      by_contra hcard
      obtain ⟨-, nic, hnic, -, hmac⟩ := exists_of_card hcard
      exact hex ⟨nic, hnic, hmac⟩
    rw [hempty]
    apply hout
    intro hmem
    obtain ⟨nic, hnic, hmac⟩ := List.mem_map.mp hmem
    exact hex ⟨nic, hnic, macName_inj (h.nic_address nic hnic) (h.entry_address e he) hmac⟩

/-- The positional parameters after the loop over the cards. -/
theorem foldl_params (link : String → LinkShow) (nics : List Nic) :
    (nics.map Nic.name = [] → (readCards link nics).params = []) ∧
    (nics.map Nic.name ≠ [] → ∃ nic ∈ nics,
      (readCards link nics).params = (link nic.name).words nic.name) := by
  constructor
  · intro hnone
    rw [readCards, List.map_eq_nil_iff.mp hnone]
    rfl
  · intro hsome
    have hlast (nics : List Nic) (params : List String) (hne : nics ≠ []) : ∃ nic ∈ nics,
        nics.foldl (fun params nic => setParams params ((link nic.name).words nic.name)) params =
          (link nic.name).words nic.name := by
      induction nics generalizing params with
      | nil => exact absurd rfl hne
      | cons nic nics ih =>
        rw [List.foldl_cons]
        by_cases hnil : nics = []
        · subst hnil
          refine ⟨nic, List.mem_cons_self, ?_⟩
          exact setParams_of_ne_nil params (by simp [LinkShow.words])
        · obtain ⟨nic', hmem, heq⟩ := ih _ hnil
          exact ⟨nic', List.mem_cons_of_mem nic hmem, heq⟩
    exact hlast nics [] fun he => hsome (List.map_eq_nil_iff.mpr he)

end Cards

section Named

variable (h : Host)

theorem bindEntry_eq {k : Links String} {e : String × String} (he : e ∈ entries h.interfaces)
    (hunset : k.toRight e.1 = "") :
    bindEntry (readCards h.link h.nics).physical_mac_interface k e =
      if h.card e.2 ≠ "" then k.bind e.1 (h.card e.2) else k := by
  have hcard := get_mac_interface h he
  have hsame : Function.update k.toRight e.1 "" = k.toRight := by
    rw [← hunset]
    exact Function.update_eq_self _ _
  obtain ⟨l, mac⟩ := e
  unfold bindEntry
  simp only [hcard]
  split
  next hmac =>
    split
    next => rfl
    next hnone =>
      rw [not_not] at hnone
      apply Links.ext
      · rw [hnone]
        exact hsame
      · rfl
  next hmac =>
    rw [not_not] at hmac
    subst hmac
    rw [if_neg (not_not.mpr card_empty)]
    exact Links.ext hsame rfl

theorem bindSameName_eq : bindSameName (readCards h.link h.nics).physical_interface =
    fun k x => if h.sameNameTest k x then k.bind x x else k := by
  funext k x
  have hx := physical_interface_eq h x
  unfold bindSameName
  by_cases htest : k.toRight x = "" ∧ k.toLeft x = "" ∧ x ∈ h.physical
  · obtain ⟨hr, hl, hmem⟩ := id htest
    rw [if_neg (not_not.mpr hr), if_neg (not_not.mpr hl), if_neg fun he => hx.mp he hmem]
    exact (if_pos (decide_eq_true htest)).symm
  · rw [sameNameTest, decide_eq_false htest, if_neg Bool.false_ne_true]
    split
    next => rfl
    next hr =>
      split
      next => rfl
      next hl =>
        rw [not_not] at hr hl
        exact if_pos (hx.mpr fun hmem => htest ⟨hr, hl, hmem⟩)

/-- The links after the loop over equal names. -/
theorem foldl_bindSameName :
    h.logical.foldl (bindSameName (readCards h.link h.nics).physical_interface)
      ((entries h.interfaces).foldl (bindEntry (readCards h.link h.nics).physical_mac_interface)
        (Links.unset "")) = h.named := by
  have hdeclared := foldl_declared (m := h.toMachine) (fun k => k)
    (bindEntry (readCards h.link h.nics).physical_mac_interface)
    (fun k e he hunset => bindEntry_eq h he hunset) (Links.unset "") rfl
  rw [hdeclared, bindSameName_eq, foldl_sameName (List.Perm.refl _)]

end Named

section Pairs

theorem evalBind_of_isName (k : Links String) {l p : String} (hl : isName l = true)
    (hp : isName p = true) : evalBind k l p = some (k.bind l p) := by
  rw [evalBind, Family.evalAssign_of_isName _ hp hl, Option.bind_some,
    Family.evalAssign_of_isName _ hl hp]
  rfl

/-- The pairing loop, when `set` finds a name in its first round or leaves no parameters. -/
theorem foldlM_pair {ls ps : List String} (hls : ∀ l ∈ ls, isName l = true)
    (hps : ∀ p ∈ ps, isName p = true) (params rest : List String) (k : Links String)
    (hset : ls = [] ∨ ps ≠ [] ∨ params = []) :
    ∃ params', ls.foldlM pair ⟨params, ps, rest, k⟩ =
      some ⟨params', ps.drop ls.length, rest ++ ls.drop ps.length, k.bindAll (ls.zip ps)⟩ := by
  induction ls generalizing ps params rest k with
  | nil => exact ⟨params, by simp⟩
  | cons l ls ih =>
    obtain ⟨hl, hls⟩ := List.forall_mem_cons.mp hls
    cases ps with
    | nil =>
      have hparams : params = [] := by simpa using hset
      subst hparams
      obtain ⟨params', heq⟩ := ih hls hps [] (rest ++ [l]) k (Or.inr (Or.inr rfl))
      refine ⟨params', ?_⟩
      have hpair : pair ⟨[], [], rest, k⟩ l = some ⟨[], [], rest ++ [l], k⟩ := rfl
      rw [List.foldlM_cons, hpair]
      simpa using heq
    | cons p ps =>
      obtain ⟨hp, hps⟩ := List.forall_mem_cons.mp hps
      have hset' : ls = [] ∨ ps ≠ [] ∨ ps = [] := Or.inr (ne_or_eq ps [])
      obtain ⟨params', heq⟩ := ih hls hps ps rest (k.bind l p) hset'
      refine ⟨params', ?_⟩
      have hpair : pair ⟨params, p :: ps, rest, k⟩ l = some ⟨ps, ps, rest, k.bind l p⟩ := by
        rw [pair, setParams_of_ne_nil params (List.cons_ne_nil p ps)]
        simp only [evalBind_of_isName k hl hp, Option.map_some]
      rw [List.foldlM_cons, hpair]
      exact heq

end Pairs

section Overflow

theorem markAll_eq (names : List String) (x : String) :
    markAll names x = if x ∈ names then x else "" := by
  have hloop (f : Family) : names.foldl (fun f name => Function.update f name name) f x =
      if x ∈ names then x else f x := by
    induction names generalizing f with
    | nil => rfl
    | cons name names ih =>
      rw [List.foldl_cons, ih]
      by_cases hx : x = name
      · simp [hx]
      · simp [hx]
  exact hloop Family.unset

/-- The loop in which a free name is taken by itself, and the other names are kept. -/
theorem foldl_own (free : String → Bool) (step : Links String × List String → String →
    Links String × List String) {rest : List String}
    (hstep : ∀ s, ∀ x ∈ rest, step s x =
      if free x then (s.1.bind x x, s.2) else (s.1, s.2 ++ [x]))
    (k : Links String) (unset : List String) :
    rest.foldl step (k, unset) = (k.bindAll ((ownNames free rest).map fun x => (x, x)),
      unset ++ leftOver free rest) := by
  induction rest generalizing k unset with
  | nil => simp [ownNames, leftOver]
  | cons x rest ih =>
    have hrest : ∀ s, ∀ y ∈ rest, step s y =
        if free y then (s.1.bind y y, s.2) else (s.1, s.2 ++ [y]) :=
      fun s y hy => hstep s y (List.mem_cons_of_mem x hy)
    rw [List.foldl_cons, hstep _ x List.mem_cons_self]
    cases hx : free x with
    | true =>
      rw [if_pos rfl, ih hrest]
      simp [ownNames, leftOver, hx, Links.bindAll_cons]
    | false =>
      rw [if_neg Bool.false_ne_true, ih hrest]
      simp [ownNames, leftOver, hx]

theorem foldlM_eq_foldl {σ α : Type*} {stepM : σ → α → Option σ} {step : σ → α → σ} {xs : List α}
    (h : ∀ s, ∀ x ∈ xs, stepM s x = some (step s x)) (s : σ) :
    xs.foldlM stepM s = some (xs.foldl step s) := by
  induction xs generalizing s with
  | nil => rfl
  | cons x xs ih =>
    rw [List.foldlM_cons, h s x List.mem_cons_self]
    exact ih (fun s y hy => h s y (List.mem_cons_of_mem x hy)) _

/-- The pairs of a phase for names left over, in the order of the lists. -/
def overflowPairs (free : String → Bool) (names rest : List String) : List (String × String) :=
  ((ownNames free rest).map fun x => (x, x)) ++ (leftOver free rest).zip (available free names rest)

theorem mem_overflowPairs {free : String → Bool} {names rest : List String}
    (hsub : ∀ x ∈ rest, x ∈ names) {x : String × String} (hx : x ∈ overflowPairs free names rest) :
    x.1 ∈ rest ∧ x.2 ∈ names := by
  rw [overflowPairs, List.mem_append] at hx
  rcases hx with hx | hx
  · obtain ⟨y, hy, rfl⟩ := List.mem_map.mp hx
    have hrest := List.mem_of_mem_filter hy
    exact ⟨hrest, hsub y hrest⟩
  · obtain ⟨hl, hr⟩ := List.of_mem_zip hx
    exact ⟨List.mem_of_mem_filter hl, List.mem_of_mem_filter hr⟩

/-- With enough names available nothing is left over. -/
theorem exists_overflowPair {free : String → Bool} {names rest : List String}
    (hle : (leftOver free rest).length ≤ (available free names rest).length) {x : String}
    (hx : x ∈ rest) : ∃ y ∈ overflowPairs free names rest, y.1 = x := by
  cases hfree : free x with
  | true =>
    refine ⟨(x, x), List.mem_append_left _ ?_, rfl⟩
    exact List.mem_map.mpr ⟨x, List.mem_filter.mpr ⟨hx, hfree⟩, rfl⟩
  | false =>
    have hleft : x ∈ leftOver free rest := List.mem_filter.mpr ⟨hx, by rw [hfree]; rfl⟩
    rw [← List.take_of_length_le hle, ← map_fst_zip] at hleft
    obtain ⟨y, hy, rfl⟩ := List.mem_map.mp hleft
    exact ⟨y, List.mem_append_right _ hy, rfl⟩

/-- The pairs of such a phase when names come more than once: a free name is given away once. -/
def repeatedPairs (free : String → Bool) (names rest : List String) : List (String × String) :=
  ((ownNames free rest).map fun x => (x, x)) ++
    (leftOver free rest).zip (available free names rest).eraseDups

theorem repeatedPairs_eq (free : String → Bool) {names : List String} (hnames : names.Nodup)
    (rest : List String) : repeatedPairs free names rest = overflowPairs free names rest := by
  rw [repeatedPairs, available, eraseDups_of_nodup (hnames.filter _)]
  rfl

/-- The loop that gives the kept names the first name that is free. -/
theorem foldl_leftOver {names rest : List String} (hne : ∀ x ∈ names, x ≠ "")
    (hsub : ∀ x ∈ rest, x ∈ names) (k : Links String) :
    (leftOver (fun x => k.toLeft x == "") rest).foldl
      (Links.bindFirst "" (names.filter fun x => k.toLeft x == ""))
      (k.bindAll ((ownNames (fun x => k.toLeft x == "") rest).map fun x => (x, x))) =
    k.bindAll (repeatedPairs (fun x => k.toLeft x == "") names rest) := by
  rw [Links.foldl_bindFirst, repeatedPairs, Links.bindAll_append]
  · congr 3
    rw [List.filter_filter, available]
    apply List.filter_congr
    intro x hx
    rw [Links.bindAll_self, Bool.eq_iff_iff, Bool.and_eq_true, Bool.and_eq_true,
      decide_eq_true_eq, decide_eq_true_eq, beq_iff_eq]
    simp only [ownNames, List.mem_filter, beq_iff_eq]
    by_cases hrest : x ∈ rest
    · by_cases hfree : k.toLeft x = ""
      · simp [hrest, hfree, hne x hx]
      · simp [hfree]
    · simp [hrest]
  · intro x hx
    exact hne x (hsub x (List.mem_of_mem_filter hx))

theorem mark_free {names : List String} (free : String → Bool) {x : String} (hx : x ∈ names) :
    markAll (names.filter free) x = if free x then x else "" := by
  rw [markAll_eq]
  cases hfree : free x with
  | true => exact if_pos (List.mem_filter.mpr ⟨hx, hfree⟩)
  | false => exact if_neg (by simp [hfree])

theorem mapLogical_nil (logical physical : List String) (k : Links String) :
    mapLogical logical physical [] k = (physical, k) := rfl

theorem mapLogical_repeated {logical rest : List String} (physical : List String)
    (hne : ∀ x ∈ logical, x ≠ "") (hsub : ∀ x ∈ rest, x ∈ logical)
    (k : Links String) : (mapLogical logical physical rest k).2 =
      k.bindAll (repeatedPairs (fun x => k.toLeft x == "") logical rest) := by
  by_cases hrest : rest = []
  · subst hrest
    rfl
  have hown := foldl_own (fun x => k.toLeft x == "") (fun s l =>
    let name := markAll (logical.filter fun l => k.toLeft l == "") l
    if name ≠ "" then (s.1.bind l name, s.2) else (s.1, s.2 ++ [l]))
    (by
      intro s x hx
      rw [mark_free _ (hsub x hx)]
      cases hfree : k.toLeft x == "" with
      | true => exact if_pos (hne x (hsub x hx))
      | false => rfl) k []
  rw [mapLogical, if_pos hrest]
  simp only at hown ⊢
  rw [hown, List.nil_append]
  exact foldl_leftOver hne hsub k

theorem mapLogical_eq {logical rest : List String} (physical : List String)
    (hlogical : logical.Nodup) (hne : ∀ x ∈ logical, x ≠ "") (hsub : ∀ x ∈ rest, x ∈ logical)
    (k : Links String) : (mapLogical logical physical rest k).2 =
      k.bindAll (overflowPairs (fun x => k.toLeft x == "") logical rest) := by
  rw [mapLogical_repeated physical hne hsub k, repeatedPairs_eq _ hlogical]

theorem mapPhysical_nil (physical : List String) (k : Links String) :
    mapPhysical physical [] k = some k := rfl

theorem mapPhysical_eq {physical rest : List String} (hphysical : physical.Nodup)
    (hne : ∀ x ∈ physical, x ≠ "") (hsub : ∀ x ∈ rest, x ∈ physical)
    (hname : ∀ x ∈ rest, isName x = true) (k : Links String) :
    mapPhysical physical rest k =
      some (k.swap.bindAll (overflowPairs (fun x => k.toRight x == "") physical rest)).swap := by
  by_cases hrest : rest = []
  · subst hrest
    rfl
  have hstep : ∀ (s : Links String × List String), ∀ x ∈ rest,
      (Family.evalGet (markAll (physical.filter fun p => k.toRight p == "")) x).map
        (fun name => if name ≠ "" then (s.1.bind name x, s.2) else (s.1, s.2 ++ [x])) =
      some (if k.toRight x == "" then (s.1.bind x x, s.2) else (s.1, s.2 ++ [x])) := by
    intro s x hx
    rw [Family.evalGet_of_isName _ (hname x hx), mark_free _ (hsub x hx), Option.map_some]
    cases hfree : k.toRight x == "" with
    | true => exact congrArg some (if_pos (hne x (hsub x hx)))
    | false => rfl
  have hown : rest.foldlM (fun (s : Links String × List String) x =>
      (Family.evalGet (markAll (physical.filter fun p => k.toRight p == "")) x).map
        fun name => if name ≠ "" then (s.1.bind name x, s.2) else (s.1, s.2 ++ [x])) (k, []) =
      some (k.bindAll ((ownNames (fun x => k.toRight x == "") rest).map fun x => (x, x)),
        leftOver (fun x => k.toRight x == "") rest) :=
    (foldlM_eq_foldl hstep (k, [])).trans (congrArg some (foldl_own _ _ (fun _ _ _ => rfl) k []))
  have hswap : (k.bindAll ((ownNames (fun x => k.toRight x == "") rest).map fun x => (x, x))).swap =
      k.swap.bindAll ((ownNames (fun x => k.toRight x == "") rest).map fun x => (x, x)) := by
    rw [Links.swap_bindAll, List.map_map]
    rfl
  rw [mapPhysical, if_pos hrest]
  simp only
  rw [hown, Option.map_some]
  simp only
  rw [hswap, ← repeatedPairs_eq _ hphysical]
  exact congrArg (fun k => some (Links.swap k)) (foldl_leftOver hne hsub k.swap)

end Overflow

section Leaking

theorem isName_toString (n : ℕ) : isName (toString n) = true := by
  rw [isName, List.all_eq_true, Nat.toString_eq_ofList_toDigits, String.toList_ofList]
  intro c hc
  have hdigit := Nat.isDigit_of_mem_toDigits (by omega) (by omega) hc
  rw [Char.isAlphanum, hdigit, Bool.or_true, Bool.true_or]

theorem isName_colon (w : String) : isName (w ++ ":") = false := by
  rw [isName, List.all_eq_false]
  exact ⟨':', by simp, by decide⟩

/-- A word that ends in a colon is stored under the name of the logical interface. -/
theorem evalBind_colon (k : Links String) {l w : String} (hl : isName l = true)
    (hw : isName w = true) : evalBind k l (w ++ ":") =
      some ⟨Function.update k.toRight l (w ++ ":"), k.toLeft⟩ := by
  have hplain : redirects (w ++ ":") = false := by
    rw [redirects_append, redirects_of_isName hw]
    decide
  have hleft : Family.evalAssign k.toLeft (w ++ ":") l = some k.toLeft := by
    rw [Family.evalAssign, redirects_of_isName hl, isName_colon, if_neg Bool.false_ne_true,
      if_neg Bool.false_ne_true]
  have hright : Family.evalAssign k.toRight l (w ++ ":") =
      some (Function.update k.toRight l (w ++ ":")) := by
    rw [Family.evalAssign, hplain, if_neg Bool.false_ne_true, if_pos hl]
  rw [evalBind, hleft, Option.bind_some, hright]
  rfl

/-- The flags end the script, wherever they are put. -/
theorem flags_not_name (flags : String) :
    isName ("<" ++ flags ++ ">") = false ∧ redirects ("<" ++ flags ++ ">") = true := by
  constructor
  · rw [isName, List.all_eq_false]
    exact ⟨'<', by simp, by decide⟩
  · simp [redirects]

theorem evalBind_redirects (k : Links String) (l : String) {p : String}
    (hp : redirects p = true) : evalBind k l p = none := by
  have hright : Family.evalAssign k.toRight l p = none := if_pos hp
  rw [evalBind, hright]
  cases Family.evalAssign k.toLeft p l with
  | none => rfl
  | some toLeft => rfl

/-- The loop body when `set` leaves a word. -/
theorem pair_eq (s : Pairs) (l : String) {p : String} {params : List String}
    (hset : setParams s.params s.sorted_unset_physical_interfaces = p :: params) :
    pair s l = (evalBind s.links l p).map fun links =>
      ⟨params, params, s.unset_logical_interfaces, links⟩ := by
  rw [pair, hset]

theorem mapPhysical_of_not_name (physical rest : List String) {w : String}
    (hw : isName w = false) (k : Links String) : mapPhysical physical (w :: rest) k = none := by
  rw [mapPhysical, if_pos (List.cons_ne_nil w rest)]
  simp [Family.evalGet, hw]

/-- The loop that takes the words of `ip link show` for cards ends the script, or the phase for the
cards left over does. -/
theorem foldlM_pair_leak {ls : List String} (hls : ∀ l ∈ ls, isName l = true) (hne : ls ≠ [])
    (shown : LinkShow) {name : String} (hname : isName name = true) (k : Links String)
    (physical : Pairs → List String) (links : Pairs → Links String) :
    ((ls.foldlM pair ⟨shown.words name, [], [], k⟩).bind fun s =>
      mapPhysical (physical s) s.sorted_unset_physical_interfaces (links s)) = none := by
  cases ls with
  | nil => exact absurd rfl hne
  | cons l ls =>
    have hindex (k : Links String) := evalBind_colon k (hls l List.mem_cons_self)
      (isName_toString shown.index)
    rw [List.foldlM_cons, pair_eq _ l rfl, hindex]
    cases ls with
    | nil => exact mapPhysical_of_not_name _ _ (isName_colon name) _
    | cons l' ls =>
      -- the second word is the name of the card and a colon
      have hsecond (k : Links String) := evalBind_colon k
        (hls l' (List.mem_cons_of_mem l List.mem_cons_self)) hname
      rw [Option.map_some, Option.bind_eq_bind, Option.bind_some, List.foldlM_cons,
        pair_eq _ l' rfl, hsecond]
      obtain ⟨hflags, hredirects⟩ := flags_not_name shown.flags
      cases ls with
      | nil => exact mapPhysical_of_not_name _ _ hflags _
      | cons l'' ls =>
        rw [Option.map_some, Option.bind_eq_bind, Option.bind_some, List.foldlM_cons,
          pair_eq _ l'' rfl, evalBind_redirects _ _ hredirects]
        rfl

end Leaking

end CompassAdapters.Network.Preseed
