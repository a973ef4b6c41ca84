import CompassAdapters.Rabbitmq.Provider

/-! What a user of RabbitMQ has after its resources: its password, its permissions and its tag. -/
namespace CompassAdapters.Rabbitmq
open Shell

section Add

variable {ctl : Rabbitmqctl} {user password : Text} {b : Broker}

theorem readWords_quote : readWords .bare none (quote password) = some [password] := by
  have h : readWords .bare none (quote password) =
      readWords .single (some []) (password.flatMap quoteChar ++ [singleQuote]) := rfl
  rw [h, readWords_single, List.nil_append, readWords]
  rfl

theorem nul_notMem_quote (hnul : '\x00' ∉ password) : '\x00' ∉ quote password := by
  have hchar (c : Char) (hc : c ∈ password) : '\x00' ∉ quoteChar c := by
    unfold quoteChar
    split
    next => decide
    next =>
      rw [List.mem_singleton]
      rintro rfl
      exact hnul hc
  have hsingle : '\x00' ≠ singleQuote := by decide
  simpa [quote, hsingle] using hchar

theorem add_eq (huser : IsName user) (hexists : userExists user b = false) (hne : password ≠ [])
    (hnul : '\x00' ∉ password) (hoperand : isOperand password = true) :
    add ctl user password b = addUser b user password := by
  have htext : "rabbitmqctl add_user ".toList ++ user ++ ' ' :: quote password =
      ["rabbitmqctl".toList, "add_user".toList, user].flatMap (· ++ [' ']) ++ quote password := by
    simp
  have harguments : ∀ w ∈ ["add_user".toList, user], IsName w := by
    simp only [List.forall_mem_cons]
    exact ⟨by decide, huser, by simp⟩
  have hexecute := @execute_after_names ctl b _ _ _ htext harguments (nul_notMem_quote hnul)
  rw [readWords_quote] at hexecute
  rw [add, if_neg (by simp [hexists]), if_neg hne, hexecute]
  exact ctl.add_user b user password huser.isOperand hoperand hne

theorem addUser_eq (hexists : userExists user b = false) (huser : IsUser user) :
    addUser b user password = some { b with users := b.users.store user ⟨password, []⟩ } := by
  rw [addUser, if_neg]
  intro hmem
  exact absurd ((userExists_iff huser).mpr ⟨user, hasUser_iff.mp hmem, Covers.refl user⟩)
    (by simp [hexists])

/-- A user that is not there is left out if the name of another one goes on after its own. -/
theorem add_creates_iff (huser : IsUser user) (hne : password ≠ []) (hnul : '\x00' ∉ password)
    (hoperand : isOperand password = true) (hnew : user ∉ b.users.keys) :
    ∃ b', add ctl user password b = some b' ∧ b'.vhosts = b.vhosts ∧ b'.permissions = b.permissions ∧
      (∀ name, name ≠ user → b'.users.get? name = b.users.get? name) ∧
      (b'.users.get? user = some ⟨password, []⟩ ↔ ∀ name ∈ b.users.keys, ¬ Covers user name) := by
  by_cases hexists : userExists user b = true
  · have hcovered := (userExists_iff huser).mp hexists
    refine ⟨b, if_pos hexists, rfl, rfl, fun _ _ => rfl, ?_⟩
    constructor
    · intro hget
      exact absurd (Ruby.Hash.mem_keys.mpr ⟨_, hget⟩) hnew
    · intro hnone
      obtain ⟨name, hmem, hcovers⟩ := hcovered
      exact absurd hcovers (hnone name hmem)
  · rw [Bool.not_eq_true] at hexists
    refine ⟨_, (add_eq huser.toIsName hexists hne hnul hoperand).trans (addUser_eq hexists huser),
      rfl, rfl, ?_, ?_⟩
    · intro name hname
      rw [Ruby.Hash.get?_store, Function.update_of_ne hname]
    · rw [Ruby.Hash.get?_store, Function.update_self]
      refine iff_of_true rfl fun name hmem hcovers => ?_
      exact absurd ((userExists_iff huser).mpr ⟨name, hmem, hcovers⟩) (by simp [hexists])

/-- A `rabbitmqctl` that follows its commands, and takes `.*` for the only regular expression. -/
def plainCtl : Rabbitmqctl where
  run b
    | [command, name] =>
      if command = "delete_user".toList then deleteUser b name
      else if command = "add_vhost".toList then addVhost b name
      else none
    | [command, user, text] =>
      if command = "add_user".toList then addUser b user text
      else if command = "change_password".toList then
        if text = [] then none
        else modifyUser b user fun account => { account with password := text }
      else if command = "set_user_tags".toList then
        modifyUser b user fun account => { account with tags := [text] }
      else none
    | [command, option, vhost, user, configure, write, read] =>
      if command = "set_permissions".toList ∧ option = "-p".toList then
        if [configure, write, read].all (· == ".*".toList) then
          storePermission b vhost user ⟨configure, write, read⟩
        else none
      else none
    | _ => none
  isPattern text := text == ".*".toList
  isPattern_all := by decide
  add_user b user password _ _ _ := by simp
  delete_user b user _ := by simp
  change_password b user password _ _ hne := by simp [hne]
  change_password_operands b user ws _ hrun := by
    match ws with
    | [] => simp at hrun
    | [text] =>
      refine ⟨text, rfl, ?_⟩
      rintro rfl
      simp at hrun
    | [_, _] => simp at hrun
    | [_, _, _] => simp at hrun
    | [_, _, _, _] => simp at hrun
    | [_, _, _, _, _] => simp at hrun
    | _ :: _ :: _ :: _ :: _ :: _ :: _ => simp at hrun
  add_vhost b vhost _ := by simp
  set_permissions b vhost user p _ _ hp := by
    obtain ⟨configure, write, read⟩ := p
    simp only [Permission.texts, List.forall_mem_cons, beq_iff_eq] at hp
    obtain ⟨⟨-, rfl⟩, ⟨-, rfl⟩, ⟨-, rfl⟩, -⟩ := hp
    simp [Permission.texts]
  set_user_tags b user tag _ _ := by simp

/-- `nova` is not added beside `nova-compute`. -/
def novaCompute : Broker where
  users := ⟨[("nova-compute".toList, ⟨"secret".toList, []⟩)], by decide⟩
  vhosts := ["/".toList]
  permissions := ⟨[], List.nodup_nil⟩

theorem add_creates_iff_novaCompute : ∃ b', add plainCtl "nova".toList "it's".toList novaCompute = some b' ∧
    b'.users.get? "nova".toList ≠ some ⟨"it's".toList, []⟩ := by
  obtain ⟨b', hadd, -, -, -, hiff⟩ := @add_creates_iff plainCtl "nova".toList "it's".toList novaCompute
    (by decide) (by decide) (by decide) (by decide) (by decide)
  exact ⟨b', hadd, fun hget => absurd (hiff.mp hget) (by decide)⟩

end Add

section Password

/-- A text in which the shell finds nothing but words, and `rabbitmqctl` no option. -/
structure Inert (password : Text) : Prop where
  inactive : ∀ c ∈ password, isActive false c = false
  last : password.getLast? ≠ some backslash
  nul : '\x00' ∉ password
  operand : isOperand password = true
  operands : ∀ ws ∈ readWords .bare none password, ∀ w ∈ ws, isOperand w = true

instance instDecidableInert (password : Text) : Decidable (Inert password) :=
  decidable_of_iff ((password.all fun c => isActive false c == false) = true ∧
      password.getLast? ≠ some backslash ∧ '\x00' ∉ password ∧ isOperand password = true ∧
      ∀ ws ∈ readWords .bare none password, ∀ w ∈ ws, isOperand w = true)
    ⟨fun h => ⟨by simpa using h.1, h.2.1, h.2.2.1, h.2.2.2.1, h.2.2.2.2⟩,
      fun h => ⟨by simpa using h.inactive, h.last, h.nul, h.operand, h.operands⟩⟩

variable {ctl : Rabbitmqctl} {user password : Text} {b b' : Broker}

theorem literal_iff (hinert : Inert password) : Literal password ↔
    ∀ c ∈ password, c ∉ [' ', '\t', backslash, singleQuote, doubleQuote] := by
  have hliteral {inWord : Bool} {c : Char} (hc : c ∈ password) :
      isLiteral inWord c = true ↔ c ∉ [' ', '\t', backslash, singleQuote, doubleQuote] := by
    have hactive : isActive inWord c = false := by
      have h := hinert.inactive c hc
      cases inWord
      next => exact h
      next =>
        simp only [isActive, Bool.or_eq_false_iff] at h ⊢
        exact ⟨h.1, rfl⟩
    simp [isLiteral, isSeparator, hactive, and_assoc]
  constructor
  · rintro ⟨hhead, htail⟩ c hc
    cases password with
    | nil => cases hc
    | cons d ds =>
      obtain rfl | hmem := List.mem_cons.mp hc
      · exact (hliteral hc).mp (hhead c rfl)
      · exact (hliteral hc).mp (htail c hmem)
  · intro h
    refine ⟨fun c hc => ?_, fun c hc => ?_⟩
    · have hc := List.mem_of_mem_head? hc
      exact (hliteral hc).mpr (h c hc)
    · have hc := List.mem_of_mem_tail hc
      exact (hliteral hc).mpr (h c hc)

theorem execute_changePassword (huser : IsName user) (hnul : '\x00' ∉ password) :
    execute ctl b ("rabbitmqctl change_password ".toList ++ user ++ ' ' :: password) =
      (readWords .bare none password).bind fun ws =>
        ctl.run b ("change_password".toList :: user :: ws) := by
  have htext : "rabbitmqctl change_password ".toList ++ user ++ ' ' :: password =
      ["rabbitmqctl".toList, "change_password".toList, user].flatMap (· ++ [' ']) ++ password := by
    simp
  have harguments : ∀ w ∈ ["change_password".toList, user], IsName w := by
    simp only [List.forall_mem_cons]
    exact ⟨by decide, huser, by simp⟩
  exact execute_after_names htext harguments hnul

theorem run_changePassword {ws : List Text} (huser : isOperand user = true)
    (hoperands : ∀ w ∈ ws, isOperand w = true)
    (h : ctl.run b ("change_password".toList :: user :: ws) = some b') :
    ∃ text, ws = [text] ∧
      modifyUser b user (fun account => { account with password := text }) = some b' := by
  obtain ⟨text, rfl, hne⟩ := ctl.change_password_operands b user ws hoperands
    (Option.isSome_iff_exists.mpr ⟨b', h⟩)
  rw [List.forall_mem_singleton] at hoperands
  rw [ctl.change_password b user text huser hoperands hne] at h
  exact ⟨text, rfl, h⟩

theorem modifyUser_eq {f : Account → Account} {account : Account}
    (hget : b.users.get? user = some account) :
    modifyUser b user f = some { b with users := b.users.store user (f account) } := by
  rw [modifyUser, hget]
  rfl

theorem changePassword_eq (huser : IsUser user) (hmem : user ∈ b.users.keys)
    (hinert : Inert password) (hne : password ≠ [])
    (hchars : ∀ c ∈ password, c ∉ [' ', '\t', backslash, singleQuote, doubleQuote]) :
    changePassword ctl user password b =
      modifyUser b user fun account => { account with password := password } := by
  have hexists := (userExists_iff huser).mpr ⟨user, hmem, Covers.refl user⟩
  have hread := readWords_last ((literal_iff hinert).mpr hchars) hne
  have hexecute := @execute_changePassword ctl user password b huser.toIsName hinert.nul
  rw [hread] at hexecute
  rw [changePassword, if_pos hexists, hexecute, Option.bind_some]
  exact ctl.change_password b user password huser.isOperand hinert.operand hne

theorem add_cases (huser : IsUser user) (hinert : Inert password) (hne : password ≠ []) :
    userExists user b = true ∧ add ctl user password b = some b ∨
      add ctl user password b = some { b with users := b.users.store user ⟨password, []⟩ } := by
  by_cases hexists : userExists user b = true
  · exact .inl ⟨hexists, if_pos hexists⟩
  · rw [Bool.not_eq_true] at hexists
    rw [add_eq huser.toIsName hexists hne hinert.nul hinert.operand, addUser_eq hexists huser]
    exact .inr rfl

theorem mem_keys_store {account : Account} : user ∈ (b.users.store user account).keys := by
  rw [Ruby.Hash.mem_keys, Ruby.Hash.get?_store]
  exact ⟨account, Function.update_self _ _ _⟩

theorem mem_add (huser : IsUser user) (hinert : Inert password)
    (hothers : ∀ name ∈ b.users.keys, Covers user name → name = user)
    (hadd : add ctl user password b = some b') : user ∈ b'.users.keys := by
  by_cases hexists : userExists user b = true
  · obtain ⟨name, hmem, hcovers⟩ := (userExists_iff huser).mp hexists
    obtain rfl := hothers name hmem hcovers
    rw [add, if_pos hexists] at hadd
    obtain rfl := Option.some.inj hadd
    exact hmem
  · have hne : password ≠ [] := by
      rintro rfl
      rw [add, if_neg hexists, if_pos rfl] at hadd
      cases hadd
    obtain ⟨hfound, -⟩ | hstore := @add_cases ctl user password b huser hinert hne
    · exact absurd hfound hexists
    · rw [hadd] at hstore
      obtain rfl := Option.some.inj hstore
      exact mem_keys_store

/-- The broker as it is installed. -/
def installed : Broker where
  users := ⟨[(guest, ⟨guest, ["administrator".toList]⟩)], by decide⟩
  vhosts := ["/".toList]
  permissions := ⟨[((guest, "/".toList), ⟨".*".toList, ".*".toList, ".*".toList⟩)], by decide⟩

end Password

section Permissions

/-- Text without blanks. -/
def IsWord (text : Text) : Prop := text ≠ [] ∧ ∀ c ∈ text, Ruby.isSpace c = false

instance instDecidableIsWord (text : Text) : Decidable (IsWord text) :=
  decidable_of_iff (text ≠ [] ∧ (text.all fun c => Ruby.isSpace c == false) = true) <| by
    simp [IsWord]

theorem IsName.isWord {name : Text} (h : IsName name) : IsWord name := by
  refine ⟨h.ne_nil, fun c hc => ?_⟩
  by_contra hspace
  have hname := h.chars c hc
  rw [Bool.not_eq_false, Ruby.isSpace, Bool.or_eq_true, Bool.and_eq_true, beq_iff_eq,
    decide_eq_true_eq, decide_eq_true_eq] at hspace
  obtain rfl | ⟨hlow, hhigh⟩ := hspace
  · exact absurd hname (by decide)
  · have hblanks : ∀ n ∈ List.range' 9 5,
        (isWordChar (Char.ofNat n) || Char.ofNat n == '-' || Char.ofNat n == '/') = false := by
      decide
    have hc := hblanks c.toNat (List.mem_range'_1.mpr ⟨hlow, by omega⟩)
    rw [Char.ofNat_toNat] at hc
    exact absurd hname (by simp [hc])

/-- What `rabbitmqctl` lists as four words. -/
def IsRow (e : (Text × Text) × Permission) : Prop := IsWord e.1.2 ∧ ∀ text ∈ e.2.texts, IsWord text

variable {ctl : Rabbitmqctl} {user vhost permissions : Text} {p : Permission} {b : Broker}
  {es : List ((Text × Text) × Permission)}

theorem words_tabs {w rest : Text} {ws : List Text} (hw : IsWord w) (hws : ∀ w ∈ ws, IsWord w) :
    Ruby.Text.words (w ++ (ws.flatMap fun text => '\t' :: text) ++ '\n' :: rest) =
      w :: ws ++ Ruby.Text.words rest := by
  have hword {w : Text} (hw : IsWord w) : Ruby.Text.words w = [w] := Ruby.Text.words_word ⟨w, hw⟩
  rw [Ruby.Text.words_append_cons _ _ (by decide)]
  congr 1
  induction ws generalizing w with
  | nil => rw [List.flatMap_nil, List.append_nil, hword hw]
  | cons w' ws ih =>
    obtain ⟨hw', hws⟩ := List.forall_mem_cons.mp hws
    rw [List.flatMap_cons, List.cons_append, Ruby.Text.words_append_cons _ _ (by decide), hword hw,
      ih hw' hws]
    rfl

theorem words_permissionLines (hrows : ∀ e ∈ es, IsRow e) :
    Ruby.Text.words (es.flatMap fun e => permissionLine e ++ ['\n']) =
      es.flatMap fun e => e.1.2 :: e.2.texts := by
  induction es with
  | nil => simp [Ruby.Text.words]
  | cons e es ih =>
    obtain ⟨hrow, hrows⟩ := List.forall_mem_cons.mp hrows
    rw [List.flatMap_cons, List.append_assoc, List.singleton_append, permissionLine,
      words_tabs hrow.1 hrow.2, ih hrows, List.flatMap_cons]

theorem Permission.texts_injective : Function.Injective Permission.texts := by
  rintro ⟨_, _, _⟩ ⟨_, _, _⟩ h
  simpa [Permission.texts] using h

/-- Without the first word the rows are three words just when there is one. -/
theorem drop_rows_eq : p.texts = (es.flatMap fun e => e.1.2 :: e.2.texts).drop 1 ↔
    ∃ key, es = [(key, p)] := by
  constructor
  · intro h
    match es with
    | [] => cases h
    | [e] =>
      rw [List.flatMap_cons, List.flatMap_nil, List.append_nil] at h
      obtain rfl : p = e.2 := Permission.texts_injective h
      exact ⟨e.1, rfl⟩
    | e :: e' :: es =>
      have hlength := congrArg List.length h
      simp [Permission.texts] at hlength
  · rintro ⟨key, rfl⟩
    simp

theorem userHasPermissions_iff (hrows : ∀ e ∈ b.permissions.entries, e.1.1 = user → IsRow e) :
    userHasPermissions user vhost b p.texts = true ↔
      ∃ other, answers user vhost b = [((user, other), p)] := by
  have hanswers : ∀ e ∈ answers user vhost b, e.1.1 = user ∧ IsRow e := by
    intro e he
    obtain ⟨hmem, htest⟩ := List.mem_filter.mp he
    have hname : e.1.1 = user := (of_decide_eq_true htest).1
    exact ⟨hname, hrows e hmem hname⟩
  rw [userHasPermissions, decide_eq_true_iff,
    words_permissionLines (fun e he => (hanswers e he).2), drop_rows_eq]
  constructor
  · rintro ⟨⟨name, other⟩, heq⟩
    have hname := (hanswers ((name, other), p) (by rw [heq]; exact List.mem_cons_self)).1
    obtain rfl : name = user := hname
    exact ⟨other, heq⟩
  · rintro ⟨other, heq⟩
    exact ⟨(user, other), heq⟩

/-- What `rabbitmqctl` is given for a permission is the permission, and it accepts it. -/
structure Quotable (ctl : Rabbitmqctl) (p : Permission) : Prop where
  operand : ∀ text ∈ p.texts, isOperand text = true
  pattern : ∀ text ∈ p.texts, ctl.isPattern text = true
  inactive : ∀ text ∈ p.texts, ∀ c ∈ text, isDoubleActive c = false
  nul : ∀ text ∈ p.texts, '\x00' ∉ text

/-- `.* .* .*`. -/
def everything : Permission := ⟨".*".toList, ".*".toList, ".*".toList⟩

theorem forall_mem_everything {q : Text → Prop} (h : q ".*".toList) :
    ∀ text ∈ everything.texts, q text := by
  simp only [everything, Permission.texts, List.forall_mem_cons]
  exact ⟨h, h, h, by simp⟩

theorem quotable_everything : Quotable ctl everything := by
  have hinactive : (".*".toList.all fun c => !isDoubleActive c) = true := by decide
  refine ⟨forall_mem_everything (by decide), forall_mem_everything ctl.isPattern_all,
    forall_mem_everything fun c hc => ?_, forall_mem_everything (by decide)⟩
  simpa only [Bool.not_eq_true'] using List.all_eq_true.mp hinactive c hc

theorem readWords_doubleQuoted {w rest : Text} (hw : ∀ c ∈ w, isDoubleActive c = false) :
    readWords .bare none (doubleQuoted w ++ rest) = readWords .bare (some w) rest := by
  have h : readWords .bare none (doubleQuoted w ++ rest) =
      readWords .double (some []) (w ++ [doubleQuote] ++ rest) := rfl
  rw [h, List.append_assoc, List.singleton_append, readWords_double hw, List.nil_append]

theorem readWords_texts (hp : Quotable ctl p) :
    readWords .bare none ([' '].intercalate (p.texts.map doubleQuoted)) = some p.texts := by
  obtain ⟨configure, write, read⟩ := p
  have htext : [' '].intercalate ((Permission.texts ⟨configure, write, read⟩).map doubleQuoted) =
      doubleQuoted configure ++
        ' ' :: (doubleQuoted write ++ ' ' :: (doubleQuoted read ++ [])) := by
    simp [Permission.texts, List.intercalate]
  have hinactive := hp.inactive
  simp only [Permission.texts, List.forall_mem_cons] at hinactive
  obtain ⟨hconfigure, hwrite, hread, -⟩ := hinactive
  rw [htext, readWords_doubleQuoted hconfigure, readWords_separator, readWords_doubleQuoted hwrite,
    readWords_separator, readWords_doubleQuoted hread, readWords]
  rfl

theorem execute_setPermissions (huser : IsName user) (hvhost : IsName vhost) (hp : Quotable ctl p) :
    execute ctl b ("rabbitmqctl set_permissions -p ".toList ++ vhost ++ ' ' :: user ++ ' ' ::
      [' '].intercalate (p.texts.map doubleQuoted)) = storePermission b vhost user p := by
  obtain ⟨configure, write, read⟩ := p
  have htext : "rabbitmqctl set_permissions -p ".toList ++ vhost ++ ' ' :: user ++ ' ' ::
      [' '].intercalate ((Permission.texts ⟨configure, write, read⟩).map doubleQuoted) =
      ["rabbitmqctl".toList, "set_permissions".toList, "-p".toList, vhost, user].flatMap
        (· ++ [' ']) ++
      [' '].intercalate ((Permission.texts ⟨configure, write, read⟩).map doubleQuoted) := by
    simp
  have harguments : ∀ w ∈ ["set_permissions".toList, "-p".toList, vhost, user],
      w ≠ [] ∧ Literal w := by
    simp only [List.forall_mem_cons]
    exact ⟨IsName.literal (by decide), ⟨by decide, literal_of_all (by decide)⟩,
      hvhost.literal, huser.literal, by simp⟩
  have hnul : '\x00' ∉ "rabbitmqctl set_permissions -p ".toList ++ vhost ++ ' ' :: user ++ ' ' ::
      [' '].intercalate ((Permission.texts ⟨configure, write, read⟩).map doubleQuoted) := by
    have hquote : '\x00' ≠ doubleQuote := by decide
    have hnul := hp.nul
    simp only [Permission.texts, List.forall_mem_cons] at hnul
    simp [Permission.texts, List.intercalate, doubleQuoted, hquote, hnul, huser.nul_notMem,
      hvhost.nul_notMem]
  have hexecute := @execute_words ctl b _ _ _ htext harguments hnul
  rw [readWords_texts hp] at hexecute
  exact hexecute.trans (ctl.set_permissions b vhost user _ hvhost.isOperand huser.isOperand
    fun text htext => ⟨hp.operand text htext, hp.pattern text htext⟩)

/-- A user has what it is given unless `grep` finds just one vhost, another one, with the same. -/
theorem permission_set_iff (huser : IsUser user) (hvhost : IsName vhost) (hp : Quotable ctl p)
    (hwords : Ruby.Text.words permissions = p.texts) (hmem : user ∈ b.users.keys)
    (hvhosts : vhost ∈ b.vhosts)
    (hrows : ∀ e ∈ b.permissions.entries, e.1.1 = user → IsRow e) :
    ∃ b', setPermissions ctl user vhost b permissions = some b' ∧ b'.users = b.users ∧
      b'.vhosts = b.vhosts ∧
      (∀ key, key ≠ (user, vhost) → b'.permissions.get? key = b.permissions.get? key) ∧
      (b'.permissions.get? (user, vhost) = some p ↔ b.permissions.get? (user, vhost) = some p ∨
        ∀ other, answers user vhost b ≠ [((user, other), p)]) := by
  have hexists := (userExists_iff huser).mpr ⟨user, hmem, Covers.refl user⟩
  by_cases hhas : userHasPermissions user vhost b p.texts = true
  · refine ⟨b, ?_, rfl, rfl, fun _ _ => rfl, ?_⟩
    · rw [setPermissions, if_pos hexists, hwords]
      exact if_pos hhas
    · obtain ⟨other, heq⟩ := (userHasPermissions_iff hrows).mp hhas
      constructor
      · exact Or.inl
      · rintro (hget | hnone)
        · exact hget
        · exact absurd heq (hnone other)
  · have hset : setPermissions ctl user vhost b permissions = storePermission b vhost user p := by
      rw [setPermissions, if_pos hexists, hwords]
      exact (if_neg hhas).trans (execute_setPermissions huser.toIsName hvhost hp)
    rw [hset, storePermission, if_pos (by simp [hmem, hvhosts])]
    refine ⟨_, rfl, rfl, rfl, ?_, ?_⟩
    · intro key hkey
      rw [Ruby.Hash.get?_store, Function.update_of_ne hkey]
    · rw [Ruby.Hash.get?_store, Function.update_self]
      refine iff_of_true rfl (Or.inr fun other heq => ?_)
      exact hhas ((userHasPermissions_iff hrows).mpr ⟨other, heq⟩)

/-- A user of the vhost `/x` only. -/
def elsewhere : Broker where
  users := ⟨[("openstack".toList, ⟨"secret".toList, []⟩)], by decide⟩
  vhosts := ["/".toList, "/x".toList]
  permissions := ⟨[(("openstack".toList, "/x".toList), ⟨".*".toList, ".*".toList, ".*".toList⟩)],
    by decide⟩

theorem permission_set_iff_elsewhere : ∃ b',
    setPermissions plainCtl "openstack".toList "/".toList elsewhere ".* .* .*".toList = some b' ∧
      b'.permissions.get? ("openstack".toList, "/".toList) ≠
        some ⟨".*".toList, ".*".toList, ".*".toList⟩ := by
  have hrow :
      IsRow (("openstack".toList, "/x".toList), ⟨".*".toList, ".*".toList, ".*".toList⟩) := by
    have hdot : IsWord ".*".toList := by decide
    refine ⟨show IsWord "/x".toList by decide, ?_⟩
    simp only [Permission.texts, List.forall_mem_cons]
    exact ⟨hdot, hdot, hdot, by simp⟩
  obtain ⟨b', hset, -, -, -, hiff⟩ := @permission_set_iff plainCtl "openstack".toList
    "/".toList ".* .* .*".toList everything elsewhere (by decide) (by decide)
    quotable_everything (by decide) (by decide) (by decide)
    (by simpa [elsewhere] using hrow)
  refine ⟨b', hset, fun hget => ?_⟩
  obtain hown | hnone := hiff.mp hget
  · exact absurd hown (by decide)
  · exact hnone "/x".toList (by decide)

end Permissions

end CompassAdapters.Rabbitmq
