import CompassAdapters.Ruby.Hash
import CompassAdapters.Ruby.Words
import CompassAdapters.Shell.Quoting
import Mathlib.Data.List.Infix

/-! The users of RabbitMQ, as `providers/user.rb` and `providers/vhost.rb` add and change them
through the shell, and the run of `rabbitmq-server.rb`. -/
namespace CompassAdapters.Rabbitmq
open Shell

abbrev Text := List Char

structure Account where
  password : Text
  tags : List Text

structure Permission where
  configure : Text
  write : Text
  read : Text
  deriving DecidableEq

def Permission.texts (p : Permission) : List Text := [p.configure, p.write, p.read]

/-- What `rabbitmqctl` works on; `permissions` are those of a user on a vhost. -/
structure Broker where
  users : Ruby.Hash Text Account
  vhosts : List Text
  permissions : Ruby.Hash (Text × Text) Permission

section Commands

variable (b : Broker)

def hasUser (user : Text) : Bool := (b.users.get? user).isSome

def hasVhost (vhost : Text) : Bool := b.vhosts.contains vhost

def addUser (user password : Text) : Option Broker :=
  if hasUser b user then none else some { b with users := b.users.store user ⟨password, []⟩ }

def deleteUser (user : Text) : Option Broker :=
  if hasUser b user then
    some { b with
      users := b.users.select fun name _ => name ≠ user
      permissions := b.permissions.select fun key _ => key.1 ≠ user }
  else none

def modifyUser (user : Text) (f : Account → Account) : Option Broker :=
  (b.users.get? user).map fun account => { b with users := b.users.store user (f account) }

def addVhost (vhost : Text) : Option Broker :=
  if hasVhost b vhost then none else some { b with vhosts := b.vhosts ++ [vhost] }

def storePermission (vhost user : Text) (permission : Permission) : Option Broker :=
  if hasUser b user && hasVhost b vhost then
    some { b with permissions := b.permissions.store (user, vhost) permission }
  else none

/-- No option of `rabbitmqctl`. -/
def isOperand (text : Text) : Bool := text.head? != some '-'

end Commands

/-- `rabbitmqctl`, whose exit status is not 0 where it answers `none`, with what is relied on: what
its commands do with arguments that are no options, that a password is one argument, and that a
permission has to be made of regular expressions, of which `.*` is one. -/
structure Rabbitmqctl where
  run : Broker → List Text → Option Broker
  isPattern : Text → Bool
  isPattern_all : isPattern ".*".toList = true
  add_user (b : Broker) (user password : Text) : isOperand user = true →
    isOperand password = true → password ≠ [] →
    run b ["add_user".toList, user, password] = addUser b user password
  delete_user (b : Broker) (user : Text) : isOperand user = true →
    run b ["delete_user".toList, user] = deleteUser b user
  change_password (b : Broker) (user password : Text) : isOperand user = true →
    isOperand password = true → password ≠ [] →
    run b ["change_password".toList, user, password] =
      modifyUser b user fun account => { account with password }
  change_password_operands (b : Broker) (user : Text) (ws : List Text) :
    (∀ w ∈ ws, isOperand w = true) →
    (run b ("change_password".toList :: user :: ws)).isSome = true →
    ∃ password, ws = [password] ∧ password ≠ []
  add_vhost (b : Broker) (vhost : Text) : isOperand vhost = true →
    run b ["add_vhost".toList, vhost] = addVhost b vhost
  set_permissions (b : Broker) (vhost user : Text) (p : Permission) : isOperand vhost = true →
    isOperand user = true → (∀ text ∈ p.texts, isOperand text = true ∧ isPattern text = true) →
    run b ("set_permissions".toList :: "-p".toList :: vhost :: user :: p.texts) =
      storePermission b vhost user p
  set_user_tags (b : Broker) (user tag : Text) : isOperand user = true → isOperand tag = true →
    run b ["set_user_tags".toList, user, tag] =
      modifyUser b user fun account => { account with tags := [tag] }

/-- `execute`, which raises when the command fails. There is no NUL in an argument. -/
def execute (ctl : Rabbitmqctl) (b : Broker) (command : Text) : Option Broker :=
  if '\x00' ∈ command then none
  else
    match argv command with
    | some (program :: arguments) =>
      if program = "rabbitmqctl".toList then ctl.run b arguments else none
    | _ => none

section Grep

def isWordChar (c : Char) : Bool := c.isAlphanum || c == '_'

/-- `grep "^pattern\b"`, for a pattern without a special character. -/
def grepName (pattern line : Text) : Bool :=
  pattern.isPrefixOf line &&
    (pattern.getLast?.any isWordChar != (line.drop pattern.length).head?.any isWordChar)

/-- `grep pattern`, for a pattern without a special character. -/
def grepText (pattern line : Text) : Bool := line.tails.any pattern.isPrefixOf

/-- A name that stands for itself for the shell and for `grep`. -/
structure IsName (name : Text) : Prop where
  ne_nil : name ≠ []
  chars : ∀ c ∈ name, (isWordChar c || c == '-' || c == '/') = true
  head : name.head? ≠ some '-'

instance instDecidableIsName (name : Text) : Decidable (IsName name) :=
  decidable_of_iff (name ≠ [] ∧ (name.all fun c => isWordChar c || c == '-' || c == '/') = true ∧
      name.head? ≠ some '-')
    ⟨fun h => ⟨h.1, List.all_eq_true.mp h.2.1, h.2.2⟩,
      fun h => ⟨h.ne_nil, List.all_eq_true.mpr h.chars, h.head⟩⟩

/-- The lines of `rabbitmqctl list_users`. -/
def userLine (e : Text × Account) : Text :=
  e.1 ++ '\t' :: '[' :: ((", ".toList).intercalate e.2.tags ++ [']'])

/-- The lines of `rabbitmqctl list_user_permissions`. -/
def permissionLine (e : (Text × Text) × Permission) : Text :=
  e.1.2 ++ e.2.texts.flatMap fun text => '\t' :: text

end Grep

section Actions

variable (ctl : Rabbitmqctl) (user password vhost tag : Text) (b : Broker)

def userExists : Bool := b.users.entries.any fun e => grepName user (userLine e)

def userHasTag : Bool :=
  b.users.entries.any fun e => grepName user (userLine e) && grepText tag (userLine e)

/-- The permissions of the user that `grep` lets through. -/
def answers : List ((Text × Text) × Permission) :=
  b.permissions.entries.filter fun e => e.1.1 = user ∧ grepName vhost (permissionLine e)

def userHasPermissions (perm_list : List Text) : Bool :=
  let stdout := (answers user vhost b).flatMap fun e => permissionLine e ++ ['\n']
  decide (perm_list = (Ruby.Text.words stdout).drop 1)

def quote (password : Text) : Text :=
  singleQuote :: (password.flatMap quoteChar ++ [singleQuote])

def add : Option Broker :=
  if userExists user b then some b
  else if password = [] then none -- `fatal!`
  else execute ctl b ("rabbitmqctl add_user ".toList ++ user ++ ' ' :: quote password)

def delete : Option Broker :=
  if userExists user b then execute ctl b ("rabbitmqctl delete_user ".toList ++ user) else some b

def doubleQuoted (text : Text) : Text := doubleQuote :: (text ++ [doubleQuote])

def setPermissions (permissions : Text) : Option Broker :=
  if userExists user b then
    let perm_list := Ruby.Text.words permissions
    if userHasPermissions user vhost b perm_list then some b
    else
      execute ctl b ("rabbitmqctl set_permissions -p ".toList ++ vhost ++ ' ' :: user ++ ' ' ::
        [' '].intercalate (perm_list.map doubleQuoted))
  else none -- `fatal!`

def setTags : Option Broker :=
  if userExists user b then
    if userHasTag user tag b then some b
    else execute ctl b ("rabbitmqctl set_user_tags ".toList ++ user ++ ' ' :: tag)
  else none -- `fatal!`

def changePassword : Option Broker :=
  if userExists user b then
    execute ctl b ("rabbitmqctl change_password ".toList ++ user ++ ' ' :: password)
  else some b

/-- `action :add` of `providers/vhost.rb`. -/
def vhostAdd : Option Broker :=
  if hasVhost b vhost then some b else execute ctl b ("rabbitmqctl add_vhost ".toList ++ vhost)

abbrev guest : Text := "guest".toList

/-- `remove rabbit guest user` of `rabbitmq-server.rb`. -/
def removeGuest : Option Broker := if user = guest then some b else delete ctl guest b

/-- The resources of `rabbitmq-server.rb`. -/
def rabbitmqServer : Option Broker := do
  let b ← removeGuest ctl user b
  let b ← add ctl user password b
  let b ← changePassword ctl user password b
  let b ← vhostAdd ctl vhost b
  let b ← setPermissions ctl user vhost b ".* .* .*".toList
  setTags ctl user "administrator".toList b

end Actions

section Names

variable {name pattern line rest : Text}

theorem IsName.notMem_special (h : IsName name) {c : Char} (hc : c ∈ name) : c ∉ special := by
  have hspecial : (special.all fun d => !(isWordChar d || d == '-' || d == '/')) = true := by decide
  intro hmem
  have hnot := List.all_eq_true.mp hspecial c hmem
  rw [h.chars c hc] at hnot
  cases hnot

theorem IsName.literal (h : IsName name) : name ≠ [] ∧ Literal name :=
  ⟨h.ne_nil, literal_of_notMem fun _ hc => h.notMem_special hc⟩

theorem IsName.isOperand (h : IsName name) : isOperand name = true :=
  bne_iff_ne.mpr h.head

theorem IsName.nul_notMem (h : IsName name) : '\x00' ∉ name := by
  intro hmem
  exact absurd (h.chars _ hmem) (by decide)

theorem IsName.tab_notMem (h : IsName name) : '\t' ∉ name := by
  intro hmem
  exact absurd (h.chars _ hmem) (by decide)

theorem grepName_eq_true : grepName pattern line = true ↔ ∃ rest, line = pattern ++ rest ∧
    (pattern.getLast?.any isWordChar != rest.head?.any isWordChar) = true := by
  rw [grepName, Bool.and_eq_true, List.isPrefixOf_iff_prefix]
  constructor
  · rintro ⟨⟨rest, rfl⟩, h⟩
    rw [List.drop_left] at h
    exact ⟨rest, rfl, h⟩
  · rintro ⟨rest, rfl, h⟩
    refine ⟨List.prefix_append pattern rest, ?_⟩
    rw [List.drop_left]
    exact h

theorem grepText_iff : grepText pattern line = true ↔ pattern <:+: line := by
  simp only [grepText, List.any_eq_true, List.mem_tails, List.isPrefixOf_iff_prefix,
    List.infix_iff_prefix_suffix]
  exact exists_congr fun _ => and_comm

/-- A name that `grep` finds where it ends. -/
structure IsUser (name : Text) : Prop extends IsName name where
  last : name.getLast?.any isWordChar = true

instance instDecidableIsUser (name : Text) : Decidable (IsUser name) :=
  decidable_of_iff (IsName name ∧ name.getLast?.any isWordChar = true)
    ⟨fun h => ⟨h.1, h.2⟩, fun h => ⟨h.toIsName, h.last⟩⟩

/-- The name itself, or it and more after a character that is in no word. -/
def Covers (user name : Text) : Prop :=
  ∃ rest, name = user ++ rest ∧ rest.head?.any isWordChar = false

instance instDecidableCovers (user name : Text) : Decidable (Covers user name) :=
  decidable_of_iff (user.isPrefixOf name = true ∧
      (name.drop user.length).head?.any isWordChar = false) <| by
    rw [List.isPrefixOf_iff_prefix]
    constructor
    · rintro ⟨⟨rest, rfl⟩, h⟩
      rw [List.drop_left] at h
      exact ⟨rest, rfl, h⟩
    · rintro ⟨rest, rfl, h⟩
      refine ⟨List.prefix_append user rest, ?_⟩
      rw [List.drop_left]
      exact h

theorem Covers.refl (user : Text) : Covers user user := ⟨[], (List.append_nil user).symm, rfl⟩

theorem grepName_row (hname : IsUser name) {other tail : Text} :
    grepName name (other ++ '\t' :: tail) = true ↔ Covers name other := by
  rw [grepName_eq_true]
  simp only [hname.last, bne_iff_ne, ne_eq, Bool.true_eq, Bool.not_eq_true, Covers]
  constructor
  · rintro ⟨rest, heq, hrest⟩
    obtain ⟨gap, rfl, hgap⟩ | ⟨gap, rfl, hgap⟩ := List.append_eq_append_iff.mp heq
    · cases gap with
      | nil => exact ⟨[], by simp, rfl⟩
      | cons c gap =>
        rw [List.cons_append, List.cons.injEq] at hgap
        obtain rfl := hgap.1
        exact absurd (List.mem_append_right other List.mem_cons_self) hname.tab_notMem
    · refine ⟨gap, rfl, ?_⟩
      cases gap with
      | nil => rfl
      | cons c gap =>
        rw [hgap] at hrest
        exact hrest
  · rintro ⟨rest, rfl, hrest⟩
    refine ⟨rest ++ '\t' :: tail, List.append_assoc _ _ _, ?_⟩
    cases rest with
    | nil => rfl
    | cons c rest => exact hrest

end Names

section Execution

variable {ctl : Rabbitmqctl} {user vhost : Text} {b : Broker}

@[simp] theorem hasUser_iff : hasUser b user = true ↔ user ∈ b.users.keys := by
  rw [hasUser, Option.isSome_iff_exists, Ruby.Hash.mem_keys]

@[simp] theorem hasVhost_iff : hasVhost b vhost = true ↔ vhost ∈ b.vhosts :=
  List.contains_iff_mem

theorem userExists_iff (huser : IsUser user) :
    userExists user b = true ↔ ∃ name ∈ b.users.keys, Covers user name := by
  simp only [userExists, List.any_eq_true, userLine, grepName_row huser, Ruby.Hash.keys,
    List.mem_map]
  constructor
  · rintro ⟨e, hmem, hcovers⟩
    exact ⟨e.1, ⟨e, hmem, rfl⟩, hcovers⟩
  · rintro ⟨-, ⟨e, hmem, rfl⟩, hcovers⟩
    exact ⟨e, hmem, hcovers⟩

theorem execute_words {command rest : Text} {arguments : List Text}
    (htext : command = ("rabbitmqctl".toList :: arguments).flatMap (· ++ [' ']) ++ rest)
    (harguments : ∀ w ∈ arguments, w ≠ [] ∧ Literal w) (hnul : '\x00' ∉ command) :
    execute ctl b command =
      (readWords .bare none rest).bind fun ws => ctl.run b (arguments ++ ws) := by
  have hall : ∀ w ∈ "rabbitmqctl".toList :: arguments, w ≠ [] ∧ Literal w := by
    rw [List.forall_mem_cons]
    exact ⟨IsName.literal (by decide), harguments⟩
  rw [execute, if_neg hnul, argv, htext, readWords_append hall]
  cases readWords .bare none rest with
  | none => rfl
  | some ws => exact if_pos rfl

/-- A command of names and what comes after them. -/
theorem execute_after_names {command rest : Text} {arguments : List Text}
    (htext : command = ("rabbitmqctl".toList :: arguments).flatMap (· ++ [' ']) ++ rest)
    (harguments : ∀ w ∈ arguments, IsName w) (hrest : '\x00' ∉ rest) :
    execute ctl b command =
      (readWords .bare none rest).bind fun ws => ctl.run b (arguments ++ ws) := by
  have hnul : '\x00' ∉ command := by
    have hall : ∀ w ∈ "rabbitmqctl".toList :: arguments, IsName w :=
      List.forall_mem_cons.mpr ⟨by decide, harguments⟩
    rw [htext, List.mem_append, List.mem_flatMap]
    rintro (⟨w, hw, hmem⟩ | hmem)
    · obtain hmem | hmem := List.mem_append.mp hmem
      · exact (hall w hw).nul_notMem hmem
      · exact absurd hmem (by decide)
    · exact hrest hmem
  exact execute_words htext (fun w hw => (harguments w hw).literal) hnul

/-- A command of nothing but names. -/
theorem execute_names {command last : Text} {arguments : List Text}
    (htext : command = ("rabbitmqctl".toList :: arguments).flatMap (· ++ [' ']) ++ last)
    (harguments : ∀ w ∈ arguments, IsName w) (hlast : IsName last) :
    execute ctl b command = ctl.run b (arguments ++ [last]) := by
  rw [execute_after_names htext harguments hlast.nul_notMem,
    readWords_last hlast.literal.2 hlast.ne_nil]
  rfl

end Execution

end CompassAdapters.Rabbitmq
