import CompassAdapters.Rabbitmq.Users

/-! The run of `rabbitmq-server.rb`: what the broker has after it, and that another run leaves it
as it is. -/
namespace CompassAdapters.Rabbitmq
open Shell

abbrev administrator : Text := "administrator".toList

section Commands

variable {ctl : Rabbitmqctl} {user vhost tag : Text} {b : Broker}

theorem execute_delete (huser : IsName user) :
    execute ctl b ("rabbitmqctl delete_user ".toList ++ user) = deleteUser b user := by
  have htext : "rabbitmqctl delete_user ".toList ++ user =
      ["rabbitmqctl".toList, "delete_user".toList].flatMap (· ++ [' ']) ++ user := by
    simp
  have harguments : ∀ w ∈ ["delete_user".toList], IsName w := by decide
  exact (execute_names htext harguments huser).trans (ctl.delete_user b user huser.isOperand)

theorem execute_vhostAdd (hvhost : IsName vhost) :
    execute ctl b ("rabbitmqctl add_vhost ".toList ++ vhost) = addVhost b vhost := by
  have htext : "rabbitmqctl add_vhost ".toList ++ vhost =
      ["rabbitmqctl".toList, "add_vhost".toList].flatMap (· ++ [' ']) ++ vhost := by
    simp
  have harguments : ∀ w ∈ ["add_vhost".toList], IsName w := by decide
  exact (execute_names htext harguments hvhost).trans (ctl.add_vhost b vhost hvhost.isOperand)

theorem execute_setTags (huser : IsName user) (htag : IsName tag) :
    execute ctl b ("rabbitmqctl set_user_tags ".toList ++ user ++ ' ' :: tag) =
      modifyUser b user fun account => { account with tags := [tag] } := by
  have htext : "rabbitmqctl set_user_tags ".toList ++ user ++ ' ' :: tag =
      ["rabbitmqctl".toList, "set_user_tags".toList, user].flatMap (· ++ [' ']) ++ tag := by
    simp
  have harguments : ∀ w ∈ ["set_user_tags".toList, user], IsName w := by
    simp only [List.forall_mem_cons]
    exact ⟨by decide, huser, by simp⟩
  exact (execute_names htext harguments htag).trans
    (ctl.set_user_tags b user tag huser.isOperand htag.isOperand)

end Commands

section Run

variable (user password vhost : Text)

/-- What the attributes of the node are. -/
structure Attributes : Prop where
  isUser : IsUser user
  inert : Inert password
  ne_nil : password ≠ []
  chars : ∀ c ∈ password, c ∉ [' ', '\t', backslash, singleQuote, doubleQuote]
  isVhost : IsName vhost
  notGuest : Covers guest user → user = guest
  noTag : ¬ administrator <:+: user

/-- `grep` finds nothing else for the user, for the guest and for the vhost. -/
structure Apart (b : Broker) : Prop where
  guests : ∀ name ∈ b.users.keys, Covers guest name → name = guest
  users : ∀ name ∈ b.users.keys, Covers user name → name = user
  rows : ∀ e ∈ b.permissions.entries, e.1.1 = user → IsRow e
  vhosts : ∀ e ∈ b.permissions.entries, e.1.1 = user →
    grepName vhost (permissionLine e) = true → e.1.2 = vhost

/-- What the resources do at most. -/
structure Within (b b' : Broker) : Prop where
  users : ∀ name, name ≠ user → name ≠ guest → b'.users.get? name = b.users.get? name
  keys : ∀ name ∈ b'.users.keys, name = user ∨ name ∈ b.users.keys
  vhosts : b.vhosts <+: b'.vhosts
  permissions : ∀ key, key.1 ≠ guest → key ≠ (user, vhost) →
    b'.permissions.get? key = b.permissions.get? key
  entries : ∀ e ∈ b'.permissions.entries, e = ((user, vhost), everything) ∨
    e ∈ b.permissions.entries

/-- What the resources are for. -/
structure Settled (b : Broker) : Prop where
  guestGone : user ≠ guest → guest ∉ b.users.keys
  account : ∃ tags, b.users.get? user = some ⟨password, tags⟩ ∧
    administrator <:+: (", ".toList).intercalate tags
  hasVhost : vhost ∈ b.vhosts
  permission : b.permissions.get? (user, vhost) = some everything

variable {ctl : Rabbitmqctl} {user password vhost} {b b' b'' : Broker}

theorem Within.refl (b : Broker) : Within user vhost b b :=
  ⟨fun _ _ _ => rfl, fun _ h => .inr h, List.prefix_rfl, fun _ _ _ => rfl, fun _ h => .inr h⟩

theorem Within.trans (h : Within user vhost b b') (h' : Within user vhost b' b'') :
    Within user vhost b b'' where
  users name hname hguest := (h'.users name hname hguest).trans (h.users name hname hguest)
  keys name hmem := (h'.keys name hmem).elim .inl (h.keys name)
  vhosts := h.vhosts.trans h'.vhosts
  permissions key hguest hkey := (h'.permissions key hguest hkey).trans
    (h.permissions key hguest hkey)
  entries e hmem := (h'.entries e hmem).elim .inl (h.entries e)

theorem isRow_everything (hvhost : IsName vhost) : IsRow ((user, vhost), everything) := by
  have hdot : IsWord ".*".toList := by decide
  exact ⟨hvhost.isWord, forall_mem_everything hdot⟩

theorem Apart.of_within (hattributes : Attributes user password vhost) (h : Apart user vhost b)
    (hwithin : Within user vhost b b') : Apart user vhost b' where
  guests name hmem hcovers := by
    obtain rfl | hmem := hwithin.keys name hmem
    · exact hattributes.notGuest hcovers
    · exact h.guests name hmem hcovers
  users name hmem hcovers := by
    obtain rfl | hmem := hwithin.keys name hmem
    · rfl
    · exact h.users name hmem hcovers
  rows e hmem hname := by
    obtain rfl | hmem := hwithin.entries e hmem
    · exact isRow_everything hattributes.isVhost
    · exact h.rows e hmem hname
  vhosts e hmem hname hgrep := by
    obtain rfl | hmem := hwithin.entries e hmem
    · rfl
    · exact h.vhosts e hmem hname hgrep

theorem infix_of_append_cons {t a l : Text} {c : Char} (h : t <:+: a ++ c :: l) (hc : c ∉ t) :
    t <:+: a ∨ t <:+: l := by
  obtain ⟨s, u, heq⟩ := h
  obtain ⟨gap, rfl, -⟩ | ⟨gap, hleft, hright⟩ := List.append_eq_append_iff.mp heq
  · exact .inl ⟨s, gap, rfl⟩
  · cases gap with
    | nil => exact .inl ⟨s, [], by rw [List.append_nil] at hleft ⊢; exact hleft⟩
    | cons d gap =>
      obtain ⟨rfl, rfl⟩ : c = d ∧ l = gap ++ u := by simpa using hright
      obtain ⟨gap', -, ht⟩ | ⟨gap', rfl, hgap⟩ := List.append_eq_append_iff.mp hleft
      · exact absurd (by simp [ht]) hc
      · cases gap' with
        | nil =>
          obtain rfl : c :: gap = t := hgap
          exact absurd List.mem_cons_self hc
        | cons d gap' =>
          obtain ⟨rfl, rfl⟩ : c = d ∧ gap = gap' ++ t := by simpa using hgap
          exact .inr ⟨gap', u, rfl⟩

theorem within_store {account : Account} :
    Within user vhost b { b with users := b.users.store user account } := by
  constructor
  · intro name hname _
    rw [Ruby.Hash.get?_store, Function.update_of_ne hname]
  · intro name hmem
    by_cases hname : name = user
    · exact .inl hname
    · rw [Ruby.Hash.mem_keys, Ruby.Hash.get?_store, Function.update_of_ne hname] at hmem
      exact .inr (Ruby.Hash.mem_keys.mpr hmem)
  · exact List.prefix_rfl
  · exact fun _ _ _ => rfl
  · exact fun _ he => .inr he

section Steps

variable (ctl) (hattributes : Attributes user password vhost) (h : Apart user vhost b)
include h

theorem guest_settled (hgone : guest ∉ b.users.keys) : delete ctl guest b = some b := by
  rw [delete, if_neg]
  intro hexists
  obtain ⟨name, hmem, hcovers⟩ := (userExists_iff (by decide)).mp hexists
  obtain rfl := h.guests name hmem hcovers
  exact hgone hmem

theorem remove_guest : ∃ b', removeGuest ctl user b = some b' ∧ Within user vhost b b' ∧
    (user ≠ guest → guest ∉ b'.users.keys) := by
  by_cases hname : user = guest
  · exact ⟨b, if_pos hname, Within.refl b, fun hne => absurd hname hne⟩
  rw [removeGuest, if_neg hname]
  by_cases hmem : guest ∈ b.users.keys
  · have hexists := (userExists_iff (by decide)).mpr ⟨guest, hmem, Covers.refl guest⟩
    rw [delete, if_pos hexists, execute_delete (by decide), deleteUser,
      if_pos (hasUser_iff.mpr hmem)]
    refine ⟨_, rfl, ?_, ?_⟩
    · constructor
      · intro name _ hname
        exact Ruby.Hash.get?_select (decide_eq_true hname)
      · intro name hname
        exact .inr (Ruby.Hash.mem_keys_select.mp hname).1
      · exact List.prefix_rfl
      · intro key hname _
        exact Ruby.Hash.get?_select (p := fun key : Text × Text => decide (key.1 ≠ guest))
          (decide_eq_true hname)
      · intro e he
        exact .inr (List.mem_filter.mp he).1
    · intro _ hname
      exact absurd (of_decide_eq_true (Ruby.Hash.mem_keys_select.mp hname).2) (by simp)
  · exact ⟨b, guest_settled ctl h hmem, Within.refl b, fun _ => hmem⟩

include hattributes

theorem add_user : ∃ b', add ctl user password b = some b' ∧ Within user vhost b b' ∧
    user ∈ b'.users.keys := by
  obtain ⟨hexists, hadd⟩ | hadd :=
    @add_cases ctl user password b hattributes.isUser hattributes.inert hattributes.ne_nil
  · exact ⟨b, hadd, Within.refl b, mem_add hattributes.isUser hattributes.inert h.users hadd⟩
  · exact ⟨_, hadd, within_store, mem_keys_store⟩

omit h in
theorem change_password {account : Account} (hget : b.users.get? user = some account) :
    changePassword ctl user password b =
      some { b with users := b.users.store user { account with password := password } } := by
  have hmem := Ruby.Hash.mem_keys.mpr ⟨account, hget⟩
  rw [changePassword_eq hattributes.isUser hmem hattributes.inert hattributes.ne_nil
    hattributes.chars, modifyUser_eq hget]

omit h in
theorem vhost_add : ∃ b', vhostAdd ctl vhost b = some b' ∧ Within user vhost b b' ∧
    b'.users = b.users ∧ vhost ∈ b'.vhosts := by
  by_cases hmem : vhost ∈ b.vhosts
  · exact ⟨b, if_pos (hasVhost_iff.mpr hmem), Within.refl b, rfl, hmem⟩
  · have hnew := mt hasVhost_iff.mp hmem
    rw [vhostAdd, if_neg hnew, execute_vhostAdd hattributes.isVhost, addVhost, if_neg hnew]
    refine ⟨_, rfl, ?_, rfl, by simp⟩
    exact ⟨fun _ _ _ => rfl, fun _ hname => .inr hname, List.prefix_append _ _,
      fun _ _ _ => rfl, fun _ he => .inr he⟩

theorem set_permissions (hmem : user ∈ b.users.keys) (hvhost : vhost ∈ b.vhosts) :
    ∃ b', setPermissions ctl user vhost b ".* .* .*".toList = some b' ∧ Within user vhost b b' ∧
      b'.users = b.users ∧ b'.vhosts = b.vhosts ∧
      b'.permissions.get? (user, vhost) = some everything := by
  have hquotable : Quotable ctl everything := quotable_everything
  have hwords : Ruby.Text.words ".* .* .*".toList = everything.texts := by decide
  obtain ⟨b', hset, husers, hvhosts, hframe, hiff⟩ := permission_set_iff hattributes.isUser
    hattributes.isVhost hquotable hwords hmem hvhost h.rows
  have hget : b'.permissions.get? (user, vhost) = some everything := by
    rw [hiff, or_iff_not_imp_right, not_forall]
    rintro ⟨other, heq⟩
    rw [not_not] at heq
    have he : ((user, other), everything) ∈ answers user vhost b := by
      rw [heq]
      exact List.mem_cons_self
    obtain ⟨he, htest⟩ := List.mem_filter.mp he
    have hother : other = vhost := h.vhosts _ he rfl (of_decide_eq_true htest).2
    rw [hother] at he
    exact Ruby.Hash.mem_entries.mp he
  refine ⟨b', hset, ⟨?_, ?_, ?_, ?_, ?_⟩, husers, hvhosts, hget⟩
  · intro name _ _
    rw [husers]
  · intro name hname
    rw [husers] at hname
    exact .inr hname
  · exact hvhosts ▸ List.prefix_rfl
  · intro key _ hkey
    exact hframe key hkey
  · rintro ⟨key, p⟩ he
    by_cases hkey : key = (user, vhost)
    · obtain rfl := hkey
      rw [Ruby.Hash.mem_entries, hget] at he
      exact .inl (by rw [Option.some.inj he])
    · rw [Ruby.Hash.mem_entries, hframe key hkey] at he
      exact .inr (Ruby.Hash.mem_entries.mpr he)

omit h in
/-- What is in the line of a user is in its name or in its tags. -/
theorem tag_of_userHasTag {account : Account} (hapart : Apart user vhost b)
    (hget : b.users.get? user = some account) (htag : userHasTag user administrator b = true) :
    administrator <:+: (", ".toList).intercalate account.tags := by
  obtain ⟨⟨name, account'⟩, hmem, htest⟩ := List.any_eq_true.mp htag
  obtain ⟨hgrep, hinfix⟩ := Bool.and_eq_true_iff.mp htest
  have hkey := Ruby.Hash.mem_keys.mpr ⟨account', Ruby.Hash.mem_entries.mp hmem⟩
  obtain rfl : name = user := hapart.users name hkey ((grepName_row hattributes.isUser).mp hgrep)
  rw [Ruby.Hash.mem_entries, hget] at hmem
  obtain rfl := Option.some.inj hmem
  obtain hname | hrest := infix_of_append_cons (grepText_iff.mp hinfix) (by decide)
  · exact absurd hname hattributes.noTag
  · obtain hempty | hrest := infix_of_append_cons
      (show administrator <:+: [] ++ '[' :: _ from hrest) (by decide)
    · exact absurd (List.infix_nil.mp hempty) (by decide)
    · obtain htags | hempty := infix_of_append_cons hrest (by decide)
      · exact htags
      · exact absurd (List.infix_nil.mp hempty) (by decide)

theorem set_tags {account : Account} (hget : b.users.get? user = some account) :
    ∃ b', setTags ctl user administrator b = some b' ∧ Within user vhost b b' ∧
      b'.vhosts = b.vhosts ∧ b'.permissions = b.permissions ∧
      ∃ tags, b'.users.get? user = some ⟨account.password, tags⟩ ∧
        administrator <:+: (", ".toList).intercalate tags := by
  have hexists := (userExists_iff hattributes.isUser).mpr
    ⟨user, Ruby.Hash.mem_keys.mpr ⟨account, hget⟩, Covers.refl user⟩
  by_cases htag : userHasTag user administrator b = true
  · refine ⟨b, ?_, Within.refl b, rfl, rfl, account.tags, hget,
      tag_of_userHasTag hattributes h hget htag⟩
    rw [setTags, if_pos hexists, if_pos htag]
  · rw [setTags, if_pos hexists, if_neg htag,
      execute_setTags hattributes.isUser.toIsName (by decide), modifyUser_eq hget]
    refine ⟨_, rfl, within_store, rfl, rfl, [administrator], ?_, ?_⟩
    · rw [Ruby.Hash.get?_store, Function.update_self]
    · simp [List.intercalate]

/-- What the resources have brought about they leave as it is. -/
theorem rabbitmqServer_settled (hsettled : Settled user password vhost b) :
    rabbitmqServer ctl user password vhost b = some b := by
  obtain ⟨tags, hget, htags⟩ := hsettled.account
  have hmem := Ruby.Hash.mem_keys.mpr ⟨_, hget⟩
  have hexists := (userExists_iff hattributes.isUser).mpr ⟨user, hmem, Covers.refl user⟩
  have hdelete : removeGuest ctl user b = some b := by
    unfold removeGuest
    split
    next => rfl
    next hname => exact guest_settled ctl h (hsettled.guestGone hname)
  have hadd : add ctl user password b = some b := if_pos hexists
  have hchange : changePassword ctl user password b = some b := by
    rw [change_password ctl hattributes hget, Ruby.Hash.store_of_get? hget]
  have hvhost : vhostAdd ctl vhost b = some b := if_pos (hasVhost_iff.mpr hsettled.hasVhost)
  have hpermissions : setPermissions ctl user vhost b ".* .* .*".toList = some b := by
    have hquotable : Quotable ctl everything := quotable_everything
    have hstore : storePermission b vhost user everything = some b := by
      rw [storePermission, if_pos (by simp [hmem, hsettled.hasVhost]),
        Ruby.Hash.store_of_get? hsettled.permission]
    rw [setPermissions, if_pos hexists,
      show Ruby.Text.words ".* .* .*".toList = everything.texts by decide]
    show (if _ then some b else _) = some b
    rw [execute_setPermissions hattributes.isUser.toIsName hattributes.isVhost hquotable, hstore,
      ite_self]
  have htag : setTags ctl user administrator b = some b := by
    have hline : administrator <:+: userLine (user, ⟨password, tags⟩) := by
      obtain ⟨before, after, heq⟩ := htags
      refine ⟨user ++ '\t' :: '[' :: before, after ++ [']'], ?_⟩
      rw [userLine, ← heq]
      simp
    have hgrep : grepName user (userLine (user, ⟨password, tags⟩)) = true :=
      (grepName_row hattributes.isUser).mpr (Covers.refl user)
    have hhas : userHasTag user administrator b = true := List.any_eq_true.mpr
      ⟨_, Ruby.Hash.mem_entries.mpr hget, Bool.and_eq_true_iff.mpr ⟨hgrep, grepText_iff.mpr hline⟩⟩
    rw [setTags, if_pos hexists, if_pos hhas]
  simp only [rabbitmqServer, Option.bind_eq_bind, hdelete, Option.bind_some, hadd, hchange, hvhost,
    hpermissions, htag]

end Steps

end Run

end CompassAdapters.Rabbitmq
