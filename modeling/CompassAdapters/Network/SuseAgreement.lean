import CompassAdapters.Network.PreseedRun
import CompassAdapters.Network.SuseMapping

/-! The run of the SUSE script at a site, and when it maps the interfaces as the preseed script
does. -/
namespace CompassAdapters.Network.Site
open Shell Matching Preseed

variable {s : Site} {c : Collation}

section Cards

/-- No name is that of a counter of the loop over the cards: `physical_interface_num` and
`physical_interface_offset` are variables of the SUSE script. -/
def CountersApart (s : Site) : Prop :=
  ∀ x, x ∈ s.physical ∨ x ∈ s.logical → x ≠ "num" ∧ x ≠ "offset"

theorem whileLoop_record (fuel : ℕ) {cards : List Nic}
    (hapart : ∀ nic ∈ cards, nic.name ≠ "num" ∧ nic.name ≠ "offset") (recorded : List Nic)
    (f : Shell.Family) (offset : ℕ) :
    whileLoop Suse.Recording.more Suse.Recording.record fuel
        ⟨cards, recorded, f, some (offset + cards.length), offset⟩ =
      if cards.length < fuel then
        some ⟨[], recorded ++ cards,
          cards.foldl (fun f nic => Function.update f nic.name nic.name) f,
          some (offset + cards.length), offset + cards.length⟩
      else none := by
  induction cards generalizing fuel recorded f offset with
  | nil =>
    cases fuel with
    | zero => rfl
    | succ fuel =>
      rw [whileLoop_done _ _ (by simp [Suse.Recording.more])]
      simp
  | cons nic cards ih =>
    cases fuel with
    | zero => rfl
    | succ fuel =>
      obtain ⟨hnum, hoffset⟩ := hapart nic List.mem_cons_self
      have hmore : Suse.Recording.more ⟨nic :: cards, recorded, f,
          some (offset + (nic :: cards).length), offset⟩ = true := by
        simp [Suse.Recording.more]
      have hcount : offset + (nic :: cards).length = offset + 1 + cards.length := by
        rw [List.length_cons]
        omega
      rw [whileLoop_next _ _ hmore, Suse.Recording.record]
      simp only [hnum, hoffset, if_false]
      rw [hcount, ih fuel (fun n hn => hapart n (List.mem_cons_of_mem nic hn)), List.append_assoc]
      simp only [List.length_cons, Nat.succ_lt_succ_iff]
      rfl

/-- The loop over equal names reads the cards of the preseed script. -/
theorem suse_foldl_named (h : s.CountersApart) (cards : List Nic) (num : Option ℕ) (offset : ℕ)
    (k : Links String) :
    s.logical.foldl (Suse.bindSameName (Suse.Recording.read
        ⟨[], cards, (readCards s.link s.nics).physical_interface, num, offset⟩)) k =
      s.logical.foldl (bindSameName (readCards s.link s.nics).physical_interface) k := by
  apply List.foldl_ext
  intro k l hl
  obtain ⟨hnum, hoffset⟩ := h l (Or.inr hl)
  have hread : Suse.Recording.read
      ⟨[], cards, (readCards s.link s.nics).physical_interface, num, offset⟩ l =
        (readCards s.link s.nics).physical_interface l := by
    rw [Suse.Recording.read, if_neg hnum, if_neg hoffset]
  rw [Suse.bindSameName, bindSameName, bindSameName, hread]

end Cards

section Run

variable (s c)

/-- What the SUSE script stores for the cards left over besides those that take their own names: at
most one pair. -/
def suseCardPairs : List (String × String) :=
  (s.takenCards c).head?.toList.zip
    ((s.physical.filter (s.freeCard c)).head?.toList.filter fun p => decide (p ∉ s.restPhysical c))

def suseFinal : Links String :=
  ((s.paired c).bindAll ((ownNames (s.freeName c) (s.restLogical c)).map fun x => (x, x))).bindAll
    ((((ownNames (s.freeCard c) (s.restPhysical c)).map fun x => (x, x)) ++
      s.suseCardPairs c).map Prod.swap)

/-- The two loops over both lists end if one of them is short. -/
def SuseEnds : Prop :=
  ¬ (2 ≤ (s.sortedPhysical c).length ∧ 2 ≤ (s.sortedLogical c).length)

variable {s c}

theorem takeOwn_eq (free : String → Bool) {names rest : List String} (hne : ∀ x ∈ names, x ≠ "")
    (hsub : ∀ x ∈ rest, x ∈ names) (k : Links String) :
    Suse.takeOwn (names.filter free) rest k =
      (k.bindAll ((ownNames free rest).map fun x => (x, x)),
        IndexedArray.ofWords (leftOver free rest)) := by
  have hown := foldl_own free (fun s x =>
    let name := markAll (names.filter free) x
    if name ≠ "" then (s.1.bind x name, s.2) else (s.1, s.2 ++ [x]))
    (by
      intro s x hx
      rw [mark_free _ (hsub x hx)]
      cases hfree : free x with
      | true => exact if_pos (hne x (hsub x hx))
      | false => rfl) k []
  unfold Suse.takeOwn
  simp only at hown ⊢
  rw [hown, List.nil_append]

theorem suse_mapLogical {logical : List String} (physical : List String) {rest : IndexedArray}
    (hne : ∀ x ∈ logical, x ≠ "") (hsub : ∀ x ∈ rest.values, x ∈ logical) (k : Links String) :
    (Suse.mapLogical logical physical rest k).2 =
      k.bindAll ((ownNames (fun x => k.toLeft x == "") rest.values).map fun x => (x, x)) := by
  unfold Suse.mapLogical
  split
  next =>
    have hleft : ∀ x ∈ leftOver (fun x => k.toLeft x == "") rest.values, x ≠ "" :=
      fun x hx => hne x (hsub x (List.mem_of_mem_filter hx))
    simp only
    rw [takeOwn_eq _ hne hsub]
    simp only [IndexedArray.values_ofWords, IndexedArray.malformed]
    rw [Links.foldl_bindFirst hleft, List.filter_nil, List.eraseDups_nil, List.zip_nil_right,
      Links.bindAll_nil]
  next hcount =>
    have hnone : rest.values = [] := List.length_eq_zero_iff.mp (Nat.eq_zero_of_not_pos hcount)
    rw [hnone]
    rfl

theorem suse_mapPhysical {physical : List String} {rest : IndexedArray}
    (hne : ∀ x ∈ physical, x ≠ "") (hsub : ∀ x ∈ rest.values, x ∈ physical) (k : Links String) :
    Suse.mapPhysical physical rest k =
      (k.swap.bindAll (((ownNames (fun x => k.toRight x == "") rest.values).map fun x => (x, x)) ++
        (leftOver (fun x => k.toRight x == "") rest.values).head?.toList.zip
          ((physical.filter fun x => k.toRight x == "").head?.toList.filter
            fun p => decide (p ∉ rest.values)))).swap := by
  unfold Suse.mapPhysical
  split
  next =>
    have hleft : ∀ x ∈ leftOver (fun x => k.toRight x == "") rest.values, x ≠ "" :=
      fun x hx => hne x (hsub x (List.mem_of_mem_filter hx))
    have hnames : ∀ x ∈ physical.filter (fun x => k.toRight x == ""), x ≠ "" :=
      fun x hx => hne x (List.mem_of_mem_filter hx)
    simp only
    rw [takeOwn_eq _ hne hsub]
    simp only [IndexedArray.scalar_ofWords hleft, IndexedArray.scalar_ofWords hnames]
    rw [Links.foldl_bindFirst, Links.bindAll_append]
    · congr 3
      cases hhead : (physical.filter fun x => k.toRight x == "").head? with
      | none => rfl
      | some p =>
        have hp := List.mem_of_mem_head? hhead
        have hpne := hnames p hp
        rw [List.mem_filter, beq_iff_eq] at hp
        have hright : k.swap.toLeft p = "" := hp.2
        rw [Option.toList_some, eraseDups_of_nodup ((List.nodup_singleton p).filter _)]
        apply List.filter_congr
        intro x hx
        rw [List.mem_singleton.mp hx, Links.bindAll_self, decide_eq_decide]
        by_cases hrest : p ∈ rest.values
        · simp [ownNames, hrest, hp.2, hpne]
        · simp [ownNames, hrest, hright]
    · intro x hx
      exact hleft x (List.mem_of_mem_head? (Option.mem_toList.mp hx))
  next hcount =>
    have hnone : rest.values = [] := List.length_eq_zero_iff.mp (Nat.eq_zero_of_not_pos hcount)
    rw [hnone]
    rfl

variable (s c)

/-- The run from the links by equal names on, once the cards are read. -/
theorem suse_mapInterfaces_named (h : s.CountersApart) (fuel : ℕ) :
    Suse.mapInterfaces c fuel s.nics s.interfaces =
      if s.nics.length < fuel then
        (Suse.pairUnset fuel (s.sortedPhysical c) (s.sortedLogical c) s.named).map fun paired =>
          Suse.mapPhysical
            (Suse.mapLogical s.logical s.physical paired.right paired.vars).1 paired.left
            (Suse.mapLogical s.logical s.physical paired.right paired.vars).2
      else none := by
  have hnames : ∀ nic ∈ s.nics, nic.name ≠ "num" ∧ nic.name ≠ "offset" := fun nic hnic =>
    h nic.name (Or.inl (List.mem_map_of_mem hnic))
  have hread := whileLoop_record fuel hnames [] Family.unset 0
  rw [Nat.zero_add] at hread
  rw [Suse.mapInterfaces, Suse.readCards, hread]
  split
  next =>
    rw [Option.map_some, Option.bind_some]
    unfold Suse.mapCards sortedLogical sortedPhysical unsetLogical unsetPhysical
    rw [← foldl_named, ← suse_foldl_named h s.nics (some s.nics.length) s.nics.length]
    rfl
  next => rfl

variable {s c}

/-- The phases after the loop over both lists. -/
theorem suse_result (h : s.SuseEnds c) :
    let paired := Pairing.result (fun p l k => Links.bind k l p) (s.sortedPhysical c)
      (s.sortedLogical c) s.named
    Suse.mapPhysical (Suse.mapLogical s.logical s.physical paired.right paired.vars).1
      paired.left (Suse.mapLogical s.logical s.physical paired.right paired.vars).2 =
        s.suseFinal c := by
  intro paired
  obtain ⟨hvars, hleft, hright⟩ :=
    Pairing.result_spec (fun p l k => Links.bind k l p) s.named h
  have hpaired : paired.vars = s.paired c := by
    show (Pairing.result _ _ _ _).vars = _
    rw [hvars, Site.paired, Links.bindAll, ← List.zip_swap, List.foldl_map]
    rfl
  have hphysical : paired.left.values = s.restPhysical c := hleft
  have hlogical : paired.right.values = s.restLogical c := hright
  have hkeys : (Suse.mapLogical s.logical s.physical paired.right paired.vars).2 =
      (s.paired c).bindAll ((ownNames (s.freeName c) (s.restLogical c)).map fun x => (x, x)) := by
    rw [suse_mapLogical s.physical (fun _ hl => ne_empty_of_mem_logical hl)
      (fun _ hl => mem_logical_of_mem_rest (hlogical ▸ hl)), hpaired, hlogical]
    rfl
  rw [hkeys]
  by_cases hrest : s.restLogical c = []
  · have hnames : (Suse.mapLogical s.logical s.physical paired.right paired.vars).1 =
        s.physical := by
      unfold Suse.mapLogical
      rw [if_neg]
      rw [IndexedArray.count, hlogical, hrest]
      exact Nat.lt_irrefl 0
    rw [hnames, suse_mapPhysical (fun _ hp => ne_empty_of_mem_physical hp)
      (fun _ hp => mem_physical_of_mem_rest (hphysical ▸ hp)), hphysical, suseFinal, hrest,
      Links.swap_bindAll, Links.swap_swap]
    rfl
  · have hnone := restPhysical_eq_nil hrest
    have hkeep (names : List String) (k : Links String) :
        Suse.mapPhysical names paired.left k = k := by
      unfold Suse.mapPhysical
      rw [if_neg]
      rw [IndexedArray.count, hphysical, hnone]
      exact Nat.lt_irrefl 0
    rw [hkeep, suseFinal, suseCardPairs, takenCards, hnone]
    rfl

theorem suse_mapInterfaces_final (hapart : s.CountersApart) (h : s.SuseEnds c) (fuel : ℕ)
    (hfuel : s.nics.length < fuel + 2) :
    Suse.mapInterfaces c (fuel + 2) s.nics s.interfaces = some (s.suseFinal c) := by
  rw [suse_mapInterfaces_named s c hapart, if_pos hfuel, Suse.pairUnset,
    Pairing.loop_ends (f := fun p l k => Links.bind k l p) (fun _ _ _ _ _ => rfl) h,
    Option.map_some]
  exact congrArg some (suse_result h)

theorem suse_mapInterfaces_eq_some (hapart : s.CountersApart) {fuel : ℕ} {k : Links String}
    (hk : Suse.mapInterfaces c fuel s.nics s.interfaces = some k) :
    s.SuseEnds c ∧ k = s.suseFinal c := by
  rw [suse_mapInterfaces_named s c hapart] at hk
  obtain ⟨-, hk⟩ := Option.ite_none_right_eq_some.mp hk
  rw [Option.map_eq_some_iff] at hk
  obtain ⟨paired, hpaired, rfl⟩ := hk
  have hends : s.SuseEnds c := by
    intro htwo
    rw [Suse.pairUnset, Pairing.loop_diverges (f := fun p l k => Links.bind k l p)
      (fun _ _ _ => rfl) htwo] at hpaired
    cases hpaired
  obtain rfl := Pairing.loop_eq_some hpaired
    (Pairing.loop_ends (f := fun p l k => Links.bind k l p) (fun _ _ _ _ _ => rfl) hends 0)
  exact ⟨hends, suse_result hends⟩

end Run

section Agreement

theorem paired_linked : (s.paired c).Linked "" :=
  named_linked.bindAll fun _ hx =>
    ne_empty_of_mem_logical (List.mem_of_mem_filter (c.mem_sort.mp (List.of_mem_zip hx).1))

/-- The links once the names left over are taken by themselves. -/
def owned (s : Site) (c : Collation) : Links String :=
  (s.paired c).bindAll ((ownNames (s.freeName c) (s.restLogical c)).map fun x => (x, x))

/-- Nothing has a spare name yet. -/
theorem owned_ne_spare (l : String) {name : String} (hname : name ∈ s.spareNames c) :
    (s.owned c).toRight l ≠ name := by
  obtain ⟨hlogical, hfree, hrest⟩ := mem_spareNames hname
  have hne : ∀ x ∈ (ownNames (s.freeName c) (s.restLogical c)).map fun x => (x, x),
      x.1 ≠ "" := by
    intro x hx
    obtain ⟨y, hy, rfl⟩ := List.mem_map.mp hx
    exact ne_empty_of_mem_logical (mem_logical_of_mem_rest (List.mem_of_mem_filter hy))
  have hlinked : (s.owned c).Linked "" := paired_linked.bindAll hne
  have hunset : (s.owned c).toLeft name = "" := by
    rw [owned, Links.bindAll_self]
    have hown : name ∉ ownNames (s.freeName c) (s.restLogical c) :=
      fun h => hrest (List.mem_of_mem_filter h)
    simpa [hown] using hfree
  rintro rfl
  exact hlinked l (ne_empty_of_mem_logical hlogical) hunset

/-- The SUSE script stores the first pair of the cards left over, or none. -/
theorem suseCardPairs_eq : s.suseCardPairs c =
    ((s.takenCards c).zip (s.spareCards c)).take
      (if (s.physical.filter (s.freeCard c)).head? = (s.spareCards c).head? then 1 else 0) := by
  have hspare : s.spareCards c =
      (s.physical.filter (s.freeCard c)).filter fun p => decide (p ∉ s.restPhysical c) := by
    rw [spareCards, available, List.filter_filter]
    apply List.filter_congr
    intro p _
    exact Bool.and_comm _ _
  rw [suseCardPairs, hspare]
  cases hfree : s.physical.filter (s.freeCard c) with
  | nil => simp
  | cons p free =>
    by_cases hrest : p ∈ s.restPhysical c
    · have hhead : some p ≠ (free.filter fun p => decide (p ∉ s.restPhysical c)).head? := by
        intro he
        have hmem := List.mem_of_mem_head? he.symm
        rw [List.mem_filter, decide_eq_true_eq] at hmem
        exact hmem.2 hrest
      rw [List.filter_cons_of_neg (by simpa using hrest), List.head?_cons, if_neg hhead]
      simp [hrest]
    · cases s.takenCards c with
      | nil => simp [hrest]
      | cons q taken => simp [hrest]

/-- The pairs of the cards left over that the SUSE script misses. -/
def missedPairs (s : Site) (c : Collation) : List (String × String) :=
  ((s.takenCards c).zip (s.spareCards c)).drop
    (if (s.physical.filter (s.freeCard c)).head? = (s.spareCards c).head? then 1 else 0)

theorem final_of_no_rest (h : s.restLogical c = []) :
    s.final c = (s.suseFinal c).bindAll ((s.missedPairs c).map Prod.swap) := by
  have hpairs : s.physicalPairs c = ((ownNames (s.freeCard c) (s.restPhysical c)).map fun x =>
      (x, x)) ++ s.suseCardPairs c ++ s.missedPairs c := by
    rw [List.append_assoc, suseCardPairs_eq, missedPairs, List.take_append_drop]
    rfl
  rw [final, suseFinal, hpairs, logicalPairs, h, List.map_append, Links.bindAll_append]
  rfl

/-- Each of them stores something new. -/
theorem suseFinal_ne_missed (h : s.restLogical c = []) {x : String × String}
    (hx : x ∈ (s.missedPairs c).map Prod.swap) : (s.suseFinal c).toRight x.1 ≠ x.2 := by
  obtain ⟨⟨q, p⟩, hmem, rfl⟩ := List.mem_map.mp hx
  obtain ⟨hq, hp⟩ := List.of_mem_zip (List.mem_of_mem_drop hmem)
  have hqne : q ≠ "" := ne_empty_of_mem_physical (mem_physical_of_mem_rest
    (List.mem_of_mem_filter hq))
  obtain ⟨hphysical, hfree, hrest⟩ := mem_spareCards hp
  -- the spare cards differ, so that the pairs of the SUSE script have another one
  have hother : p ∉ (s.suseCardPairs c).map Prod.snd := by
    have hnodup : (((s.takenCards c).zip (s.spareCards c)).map Prod.snd).Nodup := by
      rw [map_snd_zip]
      have hspare : (s.spareCards c).Nodup := List.Nodup.filter _ s.nics_nodup
      exact hspare.sublist (List.take_sublist _ _)
    intro hin
    rw [suseCardPairs_eq] at hin
    rw [missedPairs] at hmem
    rw [← List.take_append_drop (if (s.physical.filter (s.freeCard c)).head? =
      (s.spareCards c).head? then 1 else 0) ((s.takenCards c).zip (s.spareCards c)),
      List.map_append, List.nodup_append] at hnodup
    exact hnodup.2.2 p hin p (List.mem_map_of_mem hmem) rfl
  have hnot : p ∉ ((((ownNames (s.freeCard c) (s.restPhysical c)).map fun x => (x, x)) ++
      s.suseCardPairs c).map Prod.swap).map Prod.fst := by
    simp only [List.map_append, List.map_map, List.mem_append, not_or]
    refine ⟨?_, hother⟩
    intro hin
    obtain ⟨y, hy, rfl⟩ := List.mem_map.mp hin
    exact hrest (List.mem_of_mem_filter hy)
  have hkeep : (s.suseFinal c).toRight p = "" := by
    rw [suseFinal, Links.bindAll_of_not_mem _ hnot, h]
    exact hfree
  show (s.suseFinal c).toRight p ≠ q
  rw [hkeep]
  exact hqne.symm

/-- When both scripts end, they map the logical interfaces alike just when no logical interface
left over has another name to take, and the first spare card is the first free one and makes the
only pair of the cards left over. -/
theorem mappings_agree_iff (hapart : s.CountersApart) {fuel : ℕ} {k k' : Links String}
    (hpreseed : mapInterfaces c s.link s.nics s.interfaces = some k)
    (hsuse : Suse.mapInterfaces c fuel s.nics s.interfaces = some k') :
    k.toRight = k'.toRight ↔
      (s.takenNames c = [] ∨ s.spareNames c = []) ∧
      (s.takenCards c = [] ∨ s.spareCards c = [] ∨
        (s.physical.filter (s.freeCard c)).head? = (s.spareCards c).head? ∧
          ((s.takenCards c).length = 1 ∨ (s.spareCards c).length = 1)) := by
  have hleaks : ¬ s.Leaks := by
    intro h
    rw [mapInterfaces_leaks h] at hpreseed
    cases hpreseed
  rw [mapInterfaces_final hleaks] at hpreseed
  obtain rfl := Option.some.inj hpreseed
  obtain ⟨-, rfl⟩ := suse_mapInterfaces_eq_some hapart hsuse
  by_cases hrest : s.restLogical c = []
  · have hnone : s.takenNames c = [] := by
      rw [takenNames, hrest]
      rfl
    rw [and_iff_right (Or.inl hnone), final_of_no_rest hrest,
      Links.bindAll_right_eq_iff fun x hx => suseFinal_ne_missed hrest hx, List.map_eq_nil_iff,
      missedPairs, List.drop_eq_nil_iff, List.length_zip]
    rw [← List.length_eq_zero_iff, ← List.length_eq_zero_iff (l := s.spareCards c)]
    split
    next hhead =>
      rw [and_iff_right hhead]
      omega
    next hhead =>
      simp only [hhead, false_and, or_false]
      omega
  · have hcards : s.takenCards c = [] := by
      rw [takenCards, restPhysical_eq_nil hrest]
      rfl
    have hsuse' : s.suseFinal c = s.owned c := by
      rw [suseFinal, suseCardPairs, hcards, restPhysical_eq_nil hrest]
      rfl
    have hpreseed' : s.final c =
        (s.owned c).bindAll ((s.takenNames c).zip (s.spareNames c)) := by
      rw [final, physicalPairs, restPhysical_eq_nil hrest, logicalPairs, repeatedPairs,
        Links.bindAll_append]
      rfl
    rw [and_iff_left (Or.inl hcards), hsuse', hpreseed',
      Links.bindAll_right_eq_iff fun x hx => owned_ne_spare x.1 (List.of_mem_zip hx).2,
      List.zip_eq_nil_iff]

/-- Two cards, the first with the address of an interface of another name. -/
def twoCards : Site where
  nics := [⟨"eth0", "52:54:00:00:00:2a"⟩, ⟨"eth1", "52:54:00:00:00:2b"⟩]
  interfaces := [⟨"eth2", "52:54:00:00:00:2a", ""⟩, ⟨"em1", "", ""⟩, ⟨"eth0", "", ""⟩]
  link _ := ⟨2, "BROADCAST,MULTICAST,UP,LOWER_UP", ["mtu", "1500"]⟩
  nics_nodup := by decide
  nic_ne := by decide
  nic_plain := by decide
  nic_address := by decide
  entry_ne := by decide
  entry_plain := by decide
  entry_address := by decide

/-- The same cards with as many interfaces. -/
def swappedCards : Site where
  nics := twoCards.nics
  interfaces := [⟨"eth1", "52:54:00:00:00:2a", ""⟩, ⟨"eth0", "", ""⟩]
  link := twoCards.link
  nics_nodup := twoCards.nics_nodup
  nic_ne := twoCards.nic_ne
  nic_plain := twoCards.nic_plain
  nic_address := twoCards.nic_address
  entry_ne := by decide
  entry_plain := by decide
  entry_address := by decide

theorem swappedCards_agree : ∃ k k',
    mapInterfaces Collation.plain swappedCards.link swappedCards.nics swappedCards.interfaces =
      some k ∧
    Suse.mapInterfaces Collation.plain 3 swappedCards.nics swappedCards.interfaces = some k' ∧
    k.toRight = k'.toRight := by
  have hapart : swappedCards.CountersApart := by
    intro x hx
    rw [← List.mem_append] at hx
    exact (show ∀ x ∈ swappedCards.physical ++ swappedCards.logical, x ≠ "num" ∧ x ≠ "offset" by
      decide +kernel) x hx
  have hleaks : ¬ swappedCards.Leaks := by decide +kernel
  have hends : swappedCards.SuseEnds Collation.plain := by
    unfold SuseEnds
    decide +kernel
  have hpreseed := mapInterfaces_final (c := Collation.plain) hleaks
  have hsuse := suse_mapInterfaces_final hapart hends 1 (by decide)
  refine ⟨_, _, hpreseed, hsuse, (mappings_agree_iff hapart hpreseed hsuse).mpr ?_⟩
  decide +kernel

/-- The preseed script gives `eth0` the name `eth2`, the SUSE script nothing. -/
theorem twoCards_disagree :
    (mapInterfaces Collation.plain twoCards.link twoCards.nics twoCards.interfaces).map
      (fun k => k.toRight "eth0") = some "eth2" ∧
    (Suse.mapInterfaces Collation.plain 3 twoCards.nics twoCards.interfaces).map
      (fun k => k.toRight "eth0") = some "" ∧
    ¬ ∀ k k',
      mapInterfaces Collation.plain twoCards.link twoCards.nics twoCards.interfaces = some k →
      Suse.mapInterfaces Collation.plain 3 twoCards.nics twoCards.interfaces = some k' →
      k.toRight = k'.toRight := by
  have hpreseed : (mapInterfaces Collation.plain twoCards.link twoCards.nics
      twoCards.interfaces).map (fun k => k.toRight "eth0") = some "eth2" := by
    decide +kernel
  have hsuse : (Suse.mapInterfaces Collation.plain 3 twoCards.nics twoCards.interfaces).map
      (fun k => k.toRight "eth0") = some "" := by
    decide +kernel
  refine ⟨hpreseed, hsuse, ?_⟩
  intro hagree
  obtain ⟨k, hk, heth2⟩ := Option.map_eq_some_iff.mp hpreseed
  obtain ⟨k', hk', hnone⟩ := Option.map_eq_some_iff.mp hsuse
  rw [hagree k k' hk hk', hnone] at heth2
  exact absurd heth2 (by decide)

end Agreement

end CompassAdapters.Network.Site
