import Mathlib.Data.Char
import Mathlib.Data.Finset.Basic
import Mathlib.Data.List.Lex
import Mathlib.Data.List.Sort
import Mathlib.Order.Lattice
import MqStudio.Connection.Forms

/-!
# Saving a Redis User

`internal/driver/redisstream/acl.go` and `AclUserDialog.tsx`: a line of the server's listing is
sorted into columns, the columns are shown as texts, and a save resets the user and adds what the
texts hold.

The server is a parameter: what the rules for keys, channels and commands come to, `Server`, with
what its documentation says of them. All else it keeps of a user is a record.

## Main results

- `perm_of_setusers`: what a column comes to is what its own rules come to, in their order.
- `saveAclUser_readBack`: what a save sends of a line without blanks in its rules.
- `saves_unchanged_iff`: an unedited save changes nothing exactly where the line has no selector, does
  not skip sanitizing, and none of its words has a blank that only the driver or the form sees.
- `selector_revoked`: a user with a selector loses it.
-/

namespace MqStudio.Driver.Redis.Acl

open MqStudio.Lib
open MqStudio.Connection.Forms (isWhiteSpace)
open MqStudio.Storage (isSpace)

/-- A string, by its runes. -/
abbrev Text := List Char

/-- The words of a list with single blanks between. -/
def joinSpace (words : List Text) : Text := [' '].intercalate words

/-! ## The server -/

/-- The three columns of permissions. -/
inductive Column where
  | keys
  | channels
  | commands
  deriving DecidableEq

/-- The column of a rule, by how it starts. -/
def columnOf (rule : Text) : Option Column :=
  if rule = "allkeys".toList ∨ rule.head? = some '~' ∨ rule.head? = some '%' then some .keys
  else if rule = "allchannels".toList ∨ rule = "resetchannels".toList ∨ rule.head? = some '&' then
    some .channels
  else if rule.head? = some '+' ∨ rule.head? = some '-' then some .commands
  else none

/-- What permissions are to a server: what a new user has of a column, what one more rule makes of
    it unless it is refused, and whether a pattern or a command in it has a blank. -/
structure Server where
  Perm : Type
  none : Column → Perm
  rule : Column → Perm → Text → Option Perm
  blank : Perm → Prop

/-- A blank for the driver or for the form. -/
def isBlank (c : Char) : Bool := isSpace c || isWhiteSpace c

/-- A word without blanks. -/
def NoBlank (word : Text) : Prop := ∀ c ∈ word, isBlank c = false

instance (word : Text) : Decidable (NoBlank word) := List.decidableBAll _ word

/-- Permissions are made of the rules that were given: a new user has no blank in them, and a rule
    without blanks brings none. -/
structure Server.Documented (s : Server) : Prop where
  none : ∀ col, ¬ s.blank (s.none col)
  rule : ∀ {col p rule p'}, s.rule col p rule = some p' → NoBlank rule → ¬ s.blank p → ¬ s.blank p'

/-- What a server keeps of a user. -/
@[ext]
structure User (s : Server) where
  enabled : Bool
  noPassword : Bool
  skipSanitize : Bool
  passwords : Finset Text
  perm : Column → s.Perm
  selectors : List Text

/-- What `reset` leaves. -/
def fresh (s : Server) : User s where
  enabled := false
  noPassword := false
  skipSanitize := false
  passwords := ∅
  perm := s.none
  selectors := []

/-- A column of a user is set. -/
def User.setPerm {s : Server} (u : User s) (col : Column) (p : s.Perm) : User s :=
  { u with perm := fun other => if other = col then p else u.perm other }

/-- One argument of `ACL SETUSER`. -/
def setuser {s : Server} (u : User s) (rule : Text) : Option (User s) :=
  if rule = "reset".toList then some (fresh s)
  else if rule = "on".toList then some { u with enabled := true }
  else if rule = "off".toList then some { u with enabled := false }
  else if rule = "nopass".toList then some { u with noPassword := true, passwords := ∅ }
  else if rule = "sanitize-payload".toList then some { u with skipSanitize := false }
  else if rule = "skip-sanitize-payload".toList then some { u with skipSanitize := true }
  else if rule.head? = some '#' then
    some { u with noPassword := false, passwords := insert (rule.drop 1) u.passwords }
  else if rule.head? = some '(' then some { u with selectors := u.selectors ++ [rule] }
  else
    match columnOf rule with
    | some col => (s.rule col (u.perm col) rule).map (u.setPerm col)
    | none => none

/-- `ACL SETUSER`, its arguments from left to right. -/
def setusers {s : Server} (u : User s) : List Text → Option (User s)
  | [] => some u
  | rule :: rest => (setuser u rule).bind fun u => setusers u rest

/-- A line of `ACL LIST`. -/
def lineOf (name : Text) (rules selectors : List Text) : Text :=
  joinSpace ("user".toList :: name :: (rules ++ selectors))

/-- A line that a server prints for a user: read from left to right it makes that user, and it holds
    only rules that are in force. -/
structure Printed {s : Server} (u : User s) (rules selectors : List Text) : Prop where
  read : setusers (fresh s) (rules ++ selectors) = some u
  word : ∀ rule ∈ rules, rule ≠ [] ∧ rule ≠ "reset".toList ∧ rule.head? ≠ some '('
  selector : ∀ rule ∈ selectors, rule.head? = some '('
  noPassword : "nopass".toList ∈ rules → ∀ rule ∈ rules, rule.head? ≠ some '#'
  sanitize : "skip-sanitize-payload".toList ∈ rules → "sanitize-payload".toList ∉ rules
  hash : ∀ rule ∈ rules, rule.head? = some '#' → NoBlank rule
  inForce : ∀ rule ∈ rules, ∀ col, columnOf rule = some col → ¬ NoBlank rule → s.blank (u.perm col)

/-! ## Reading a line -/

/-- `strings.Fields` -/
def fields (line : Text) : List Text := Words.fieldsFunc isSpace line

/-- `model.AclUser` -/
structure AclUser where
  name : Text
  enabled : Bool
  noPassword : Bool
  passwordCount : Nat
  keyPatterns : List Text
  channelPatterns : List Text
  commandRules : Text
  selectors : List Text
  rule : Text

/-- The loop of `parseAclUser`, with the commands beside the user. -/
def parseFields : List Text → AclUser × List Text → AclUser × List Text
  | [], read => read
  | field :: rest, (user, commands) =>
    if field = "on".toList then parseFields rest ({ user with enabled := true }, commands)
    else if field = "off".toList then parseFields rest ({ user with enabled := false }, commands)
    else if field = "nopass".toList then
      parseFields rest ({ user with noPassword := true }, commands)
    else if field.head? = some '#' then
      parseFields rest ({ user with passwordCount := user.passwordCount + 1 }, commands)
    else if field.head? = some '(' then
      -- the rest of the line is taken whole
      ({ user with selectors := user.selectors ++ [joinSpace (field :: rest)] }, commands)
    else if field = "allkeys".toList ∨ field.head? = some '~' ∨ field.head? = some '%' then
      parseFields rest ({ user with keyPatterns := user.keyPatterns ++ [field] }, commands)
    else if field = "allchannels".toList ∨ field = "resetchannels".toList ∨
        field.head? = some '&' then
      parseFields rest ({ user with channelPatterns := user.channelPatterns ++ [field] }, commands)
    else if field.head? = some '+' ∨ field.head? = some '-' then
      parseFields rest (user, commands ++ [field])
    else parseFields rest (user, commands)

/-- The user of a line before its rules are read. -/
def newAclUser (name line : Text) : AclUser where
  name := name
  enabled := false
  noPassword := false
  passwordCount := 0
  keyPatterns := []
  channelPatterns := []
  commandRules := []
  selectors := []
  rule := line

/-- `parseAclUser` -/
def parseAclUser (line : Text) : Option AclUser :=
  match fields line with
  | head :: name :: rest =>
    if head = "user".toList then
      let (user, commands) := parseFields rest (newAclUser name line, [])
      some { user with commandRules := joinSpace commands }
    else none
  | _ => none

/-- `passwordHashesOf` -/
def passwordHashesOf (line : Text) : List Text :=
  ((fields line).filter fun field => field.head? = some '#').map fun field => field.drop 1

/-! ## Saving -/

/-- `model.AclUserSpec` -/
structure AclUserSpec where
  name : Text
  enabled : Bool
  password : Text
  clearPasswords : Bool
  noPassword : Bool
  keyPatterns : List Text
  channelPatterns : List Text
  commandRules : List Text

/-- `strings.TrimSpace` -/
def trimSpace (text : Text) : Text := Words.trim isSpace text

/-- The rules of a column that are sent. -/
def trimmed (rules : List Text) : List Text := (rules.map trimSpace).filter fun rule => rule ≠ []

/-- `buildAclRules` -/
def buildAclRules (spec : AclUserSpec) (keepHashes : List Text) : List Text :=
  ["reset".toList, if spec.enabled then "on".toList else "off".toList] ++
    (if spec.noPassword then ["nopass".toList]
    else if spec.password ≠ [] then ['>' :: spec.password]
    else if !spec.clearPasswords then keepHashes.map ('#' :: ·)
    else []) ++
    trimmed spec.keyPatterns ++ trimmed spec.channelPatterns ++ trimmed spec.commandRules

/-- `ListAclUsers`, of the lines that the server answers. -/
def listAclUsers (listing : List Text) : List AclUser :=
  (listing.filterMap parseAclUser).insertionSort fun a b => a.name ≤ b.name

/-- `aclUser` -/
def aclUser (listing : List Text) (name : Text) : Option AclUser :=
  (listAclUsers listing).find? fun user => user.name = name

/-- The two errors of `SaveAclUser` that come before the server is asked. -/
inductive SaveError where
  /-- "an acl user needs a name" -/
  | noName
  /-- "an acl user name cannot contain whitespace" -/
  | blankName
  deriving DecidableEq

/-- `SaveAclUser`: whose rules are set, and to what. -/
def saveAclUser (listing : List Text) (spec : AclUserSpec) : Except SaveError (Text × List Text) :=
  let name := trimSpace spec.name
  if name = [] then .error .noName
  else if name.any fun c => c = ' ' || c = '\t' || c = '\r' || c = '\n' then .error .blankName
  else
    let hashes :=
      if spec.password = [] ∧ ¬ spec.clearPasswords ∧ ¬ spec.noPassword then
        match aclUser listing name with
        | some existing => passwordHashesOf existing.rule
        | none => []
      else []
    .ok (name, buildAclRules spec hashes)

/-! ## The form -/

/-- `AuthChoice` -/
inductive AuthChoice where
  | keep
  | set
  | any
  | none
  deriving DecidableEq

/-- `AclUserForm` -/
structure AclUserForm where
  name : Text
  enabled : Bool
  auth : AuthChoice
  password : Text
  keyPatterns : Text
  channelPatterns : Text
  commandRules : Text

/-- `toForm` -/
def toForm (user : AclUser) : AclUserForm where
  name := user.name
  enabled := user.enabled
  auth := if user.noPassword then .any else .keep
  password := []
  keyPatterns := joinSpace user.keyPatterns
  channelPatterns := joinSpace user.channelPatterns
  commandRules := user.commandRules

/-- `words` -/
def words (value : Text) : List Text := Words.fieldsFunc isWhiteSpace value

/-- `trim` -/
def trim (text : Text) : Text := Words.trim isWhiteSpace text

/-- `toDraft` -/
def toDraft (form : AclUserForm) : AclUserSpec where
  name := trim form.name
  enabled := form.enabled
  password := if form.auth = .set then form.password else []
  clearPasswords := form.auth = .none
  noPassword := form.auth = .any
  keyPatterns := words form.keyPatterns
  channelPatterns := words form.channelPatterns
  commandRules := words form.commandRules

/-! ## What an argument does -/

section Setuser

variable {s : Server} {u v : User s} {rule : Text} {rules : List Text} {col : Column}

theorem columnOf_head {c : Char} (hc : c = '#' ∨ c = '(') (h : rule.head? = some c) :
    columnOf rule = none := by
  obtain ⟨more, rfl⟩ : ∃ more, rule = c :: more := by
    cases rule with
    | nil => cases h
    | cons d more =>
      rw [List.head?_cons, Option.some.injEq] at h
      exact ⟨more, by rw [h]⟩
  rcases hc with rfl | rfl <;> simp [columnOf]

/-- The words that are no rule of a column. -/
def stateWords : List Text :=
  ["reset".toList, "on".toList, "off".toList, "nopass".toList, "sanitize-payload".toList,
    "skip-sanitize-payload".toList]

theorem columnOf_stateWords : ∀ word ∈ stateWords, columnOf word = none := by decide

theorem head_stateWords : ∀ word ∈ stateWords, word.head? ≠ some '#' ∧ word.head? ≠ some '(' := by decide

theorem not_mem_stateWords (h : columnOf rule = some col) : rule ∉ stateWords := by
  intro hmem
  rw [columnOf_stateWords rule hmem] at h
  cases h

theorem setuser_column (h : columnOf rule = some col) (u : User s) :
    setuser u rule = (s.rule col (u.perm col) rule).map (u.setPerm col) := by
  have hwords := not_mem_stateWords h
  simp only [stateWords, List.mem_cons, List.not_mem_nil, or_false, not_or] at hwords
  obtain ⟨h1, h2, h3, h4, h5, h6⟩ := hwords
  have hhash : rule.head? ≠ some '#' := by
    intro hhead
    rw [columnOf_head (.inl rfl) hhead] at h
    cases h
  have hopen : rule.head? ≠ some '(' := by
    intro hhead
    rw [columnOf_head (.inr rfl) hhead] at h
    cases h
  rw [setuser, if_neg h1, if_neg h2, if_neg h3, if_neg h4, if_neg h5, if_neg h6, if_neg hhash,
    if_neg hopen, h]

/-- **What one argument does**, of each kind. -/
theorem setuser_cases (h : setuser u rule = some v) :
    (rule = "reset".toList ∧ v = fresh s) ∨
    (rule = "on".toList ∧ v = { u with enabled := true }) ∨
    (rule = "off".toList ∧ v = { u with enabled := false }) ∨
    (rule = "nopass".toList ∧ v = { u with noPassword := true, passwords := ∅ }) ∨
    (rule = "sanitize-payload".toList ∧ v = { u with skipSanitize := false }) ∨
    (rule = "skip-sanitize-payload".toList ∧ v = { u with skipSanitize := true }) ∨
    (rule.head? = some '#' ∧
      v = { u with noPassword := false, passwords := insert (rule.drop 1) u.passwords }) ∨
    (rule.head? = some '(' ∧ v = { u with selectors := u.selectors ++ [rule] }) ∨
    (∃ col p, columnOf rule = some col ∧ s.rule col (u.perm col) rule = some p ∧
      v = u.setPerm col p) := by
  simp only [setuser, ite_eq_iff, Option.some.injEq] at h
  rcases h with ⟨h, rfl⟩ | ⟨-, ⟨h, rfl⟩ | ⟨-, ⟨h, rfl⟩ | ⟨-, ⟨h, rfl⟩ | ⟨-, ⟨h, rfl⟩ |
    ⟨-, ⟨h, rfl⟩ | ⟨-, ⟨h, rfl⟩ | ⟨-, ⟨h, rfl⟩ | ⟨-, hown⟩⟩⟩⟩⟩⟩⟩⟩
  · exact .inl ⟨h, rfl⟩
  · exact .inr (.inl ⟨h, rfl⟩)
  · exact .inr (.inr (.inl ⟨h, rfl⟩))
  · exact .inr (.inr (.inr (.inl ⟨h, rfl⟩)))
  · exact .inr (.inr (.inr (.inr (.inl ⟨h, rfl⟩))))
  · exact .inr (.inr (.inr (.inr (.inr (.inl ⟨h, rfl⟩)))))
  · exact .inr (.inr (.inr (.inr (.inr (.inr (.inl ⟨h, rfl⟩))))))
  · exact .inr (.inr (.inr (.inr (.inr (.inr (.inr (.inl ⟨h, rfl⟩)))))))
  · cases hcol : columnOf rule with
    | none =>
      rw [hcol] at hown
      cases hown
    | some col =>
      rw [hcol] at hown
      obtain ⟨p, hp, rfl⟩ := Option.map_eq_some_iff.mp hown
      exact .inr (.inr (.inr (.inr (.inr (.inr (.inr (.inr ⟨col, p, rfl, hp, rfl⟩)))))))

/-- An argument that a server knows. -/
def Known (rule : Text) : Prop :=
  rule ∈ stateWords ∨ rule.head? = some '#' ∨ rule.head? = some '(' ∨ ∃ col, columnOf rule = some col

theorem known_of_setuser (h : setuser u rule = some v) : Known rule := by
  rcases setuser_cases h with ⟨rfl, -⟩ | ⟨rfl, -⟩ | ⟨rfl, -⟩ | ⟨rfl, -⟩ | ⟨rfl, -⟩ | ⟨rfl, -⟩ |
    ⟨hhead, -⟩ | ⟨hhead, -⟩ | ⟨col, p, hcol, -⟩
  · exact .inl (by decide)
  · exact .inl (by decide)
  · exact .inl (by decide)
  · exact .inl (by decide)
  · exact .inl (by decide)
  · exact .inl (by decide)
  · exact .inr (.inl hhead)
  · exact .inr (.inr (.inl hhead))
  · exact .inr (.inr (.inr ⟨col, hcol⟩))

theorem setusers_cons (u : User s) (rule : Text) (rest : List Text) :
    setusers u (rule :: rest) = (setuser u rule).bind fun u => setusers u rest := rfl

theorem setusers_reset (u : User s) (rest : List Text) :
    setusers u ("reset".toList :: rest) = setusers (fresh s) rest := rfl

theorem known_of_setusers (h : setusers u rules = some v) : ∀ rule ∈ rules, Known rule := by
  induction rules generalizing u with
  | nil => simp
  | cons rule rest ih =>
    obtain ⟨w, hstep, hrest⟩ := Option.bind_eq_some_iff.mp h
    intro other hother
    rcases List.mem_cons.mp hother with rfl | hlater
    · exact known_of_setuser hstep
    · exact ih hrest other hlater

end Setuser

/-! ## What a list of arguments does -/

section Setusers

variable {s : Server} {u v : User s} {rule : Text} {rules : List Text} {col : Column}

/-- The words that stand for themselves are none of the other kinds. -/
theorem ne_of_mem_stateWords {word : Text} (hword : word ∈ stateWords)
    (h : rule.head? = some '#' ∨ rule.head? = some '(' ∨ ∃ col, columnOf rule = some col) :
    rule ≠ word := by
  rintro rfl
  obtain ⟨hhash, hopen⟩ := head_stateWords rule hword
  rcases h with h | h | ⟨col, h⟩
  · exact hhash h
  · exact hopen h
  · exact not_mem_stateWords h hword

/-- The switch after one argument. -/
def switch (enabled : Bool) (rule : Text) : Bool :=
  if rule = "on".toList then true else if rule = "off".toList then false else enabled

theorem switch_other (enabled : Bool) (hon : rule ≠ "on".toList) (hoff : rule ≠ "off".toList) :
    switch enabled rule = enabled := by
  rw [switch, if_neg hon, if_neg hoff]

theorem enabled_setuser (h : setuser u rule = some v) (hreset : rule ≠ "reset".toList) :
    v.enabled = switch u.enabled rule := by
  have hother : (rule.head? = some '#' ∨ rule.head? = some '(' ∨ ∃ col, columnOf rule = some col) →
      switch u.enabled rule = u.enabled := fun hkind =>
    switch_other _ (ne_of_mem_stateWords (by decide) hkind) (ne_of_mem_stateWords (by decide) hkind)
  rcases setuser_cases h with ⟨rfl, -⟩ | ⟨rfl, rfl⟩ | ⟨rfl, rfl⟩ | ⟨rfl, rfl⟩ | ⟨rfl, rfl⟩ |
    ⟨rfl, rfl⟩ | ⟨hhead, rfl⟩ | ⟨hhead, rfl⟩ | ⟨col, p, hcol, -, rfl⟩
  · exact absurd rfl hreset
  · rfl
  · rfl
  · rfl
  · rfl
  · rfl
  · exact (hother (.inl hhead)).symm
  · exact (hother (.inr (.inl hhead))).symm
  · exact (hother (.inr (.inr ⟨col, hcol⟩))).symm

theorem selectors_setuser (h : setuser u rule = some v) (hreset : rule ≠ "reset".toList)  :
    v.selectors = if rule.head? = some '(' then u.selectors ++ [rule] else u.selectors := by
  rcases setuser_cases h with ⟨rfl, -⟩ | ⟨rfl, rfl⟩ | ⟨rfl, rfl⟩ | ⟨rfl, rfl⟩ | ⟨rfl, rfl⟩ |
    ⟨rfl, rfl⟩ | ⟨hhead, rfl⟩ | ⟨hhead, rfl⟩ | ⟨col, p, hcol, -, rfl⟩
  · exact absurd rfl hreset
  · rfl
  · rfl
  · rfl
  · rfl
  · rfl
  · rw [if_neg]
    rw [hhead]
    decide
  · rw [if_pos hhead]
  · rw [if_neg]
    · rfl
    · intro hopen
      rw [columnOf_head (.inr rfl) hopen] at hcol
      cases hcol

theorem skip_setuser (h : setuser u rule = some v) (hreset : rule ≠ "reset".toList) :
    v.skipSanitize = if rule = "sanitize-payload".toList then false
      else if rule = "skip-sanitize-payload".toList then true else u.skipSanitize := by
  have hother : (rule.head? = some '#' ∨ rule.head? = some '(' ∨ ∃ col, columnOf rule = some col) →
      (if rule = "sanitize-payload".toList then false
        else if rule = "skip-sanitize-payload".toList then true else u.skipSanitize) =
        u.skipSanitize := fun hkind => by
    rw [if_neg (ne_of_mem_stateWords (by decide) hkind),
      if_neg (ne_of_mem_stateWords (by decide) hkind)]
  rcases setuser_cases h with ⟨rfl, -⟩ | ⟨rfl, rfl⟩ | ⟨rfl, rfl⟩ | ⟨rfl, rfl⟩ | ⟨rfl, rfl⟩ |
    ⟨rfl, rfl⟩ | ⟨hhead, rfl⟩ | ⟨hhead, rfl⟩ | ⟨col, p, hcol, -, rfl⟩
  · exact absurd rfl hreset
  · rfl
  · rfl
  · rfl
  · rfl
  · rfl
  · exact (hother (.inl hhead)).symm
  · exact (hother (.inr (.inl hhead))).symm
  · exact (hother (.inr (.inr ⟨col, hcol⟩))).symm

theorem passwords_setuser (h : setuser u rule = some v) (hreset : rule ≠ "reset".toList) :
    (rule = "nopass".toList → v.noPassword = true ∧ v.passwords = ∅) ∧
    (rule.head? = some '#' →
      v.noPassword = false ∧ v.passwords = insert (rule.drop 1) u.passwords) ∧
    (rule ≠ "nopass".toList → rule.head? ≠ some '#' →
      v.noPassword = u.noPassword ∧ v.passwords = u.passwords) := by
  have hword := head_stateWords "nopass".toList (by decide)
  rcases setuser_cases h with ⟨rfl, -⟩ | ⟨rfl, rfl⟩ | ⟨rfl, rfl⟩ | ⟨rfl, rfl⟩ | ⟨rfl, rfl⟩ |
    ⟨rfl, rfl⟩ | ⟨hhead, rfl⟩ | ⟨hhead, rfl⟩ | ⟨col, p, hcol, -, rfl⟩
  · exact absurd rfl hreset
  · exact ⟨fun hc => absurd hc (by decide), fun hc => absurd hc (by decide), fun _ _ => ⟨rfl, rfl⟩⟩
  · exact ⟨fun hc => absurd hc (by decide), fun hc => absurd hc (by decide), fun _ _ => ⟨rfl, rfl⟩⟩
  · exact ⟨fun _ => ⟨rfl, rfl⟩, fun hc => absurd hc (by decide), fun hc => absurd rfl hc⟩
  · exact ⟨fun hc => absurd hc (by decide), fun hc => absurd hc (by decide), fun _ _ => ⟨rfl, rfl⟩⟩
  · exact ⟨fun hc => absurd hc (by decide), fun hc => absurd hc (by decide), fun _ _ => ⟨rfl, rfl⟩⟩
  · refine ⟨fun hc => ?_, fun _ => ⟨rfl, rfl⟩, fun _ hc => absurd hhead hc⟩
    exact absurd (hc ▸ hhead) hword.1
  · refine ⟨fun hc => ?_, fun hc => ?_, fun _ _ => ⟨rfl, rfl⟩⟩
    · exact absurd (hc ▸ hhead) hword.2
    · rw [hhead] at hc
      exact absurd hc (by decide)
  · refine ⟨fun hc => ?_, fun hc => ?_, fun _ _ => ⟨rfl, rfl⟩⟩
    · exact absurd hc (ne_of_mem_stateWords (by decide) (.inr (.inr ⟨col, hcol⟩)))
    · rw [columnOf_head (.inl rfl) hc] at hcol
      cases hcol

/-- The rules of one column, from what it was. -/
def foldRules (s : Server) (col : Column) : s.Perm → List Text → Option s.Perm
  | p, [] => some p
  | p, rule :: rest => (s.rule col p rule).bind fun p => foldRules s col p rest

theorem perm_setuser (h : setuser u rule = some v) (hreset : rule ≠ "reset".toList)
    (col : Column) :
    if columnOf rule = some col then s.rule col (u.perm col) rule = some (v.perm col)
    else v.perm col = u.perm col := by
  have hnone : ∀ word ∈ stateWords, ¬ columnOf word = some col := by
    intro word hword hcol
    exact not_mem_stateWords hcol hword
  rcases setuser_cases h with ⟨rfl, -⟩ | ⟨rfl, rfl⟩ | ⟨rfl, rfl⟩ | ⟨rfl, rfl⟩ | ⟨rfl, rfl⟩ |
    ⟨rfl, rfl⟩ | ⟨hhead, rfl⟩ | ⟨hhead, rfl⟩ | ⟨other, p, hcol, hp, rfl⟩
  · exact absurd rfl hreset
  · rw [if_neg (hnone _ (by decide))]
  · rw [if_neg (hnone _ (by decide))]
  · rw [if_neg (hnone _ (by decide))]
  · rw [if_neg (hnone _ (by decide))]
  · rw [if_neg (hnone _ (by decide))]
  · rw [columnOf_head (.inl rfl) hhead, if_neg (by simp)]
  · rw [columnOf_head (.inr rfl) hhead, if_neg (by simp)]
  · by_cases hsame : other = col
    · subst hsame
      rw [if_pos hcol, hp]
      simp [User.setPerm]
    · rw [if_neg (by rw [hcol]; simpa using hsame)]
      simp [User.setPerm, Ne.symm hsame]

/-- The rules of a column among others. -/
def column (col : Column) (rules : List Text) : List Text :=
  rules.filter fun rule => columnOf rule = some col

/-- **What a column comes to** is what its own rules come to, in their order. -/
theorem perm_of_setusers (h : setusers u rules = some v) (hreset : "reset".toList ∉ rules)
    (col : Column) : foldRules s col (u.perm col) (column col rules) = some (v.perm col) := by
  induction rules generalizing u with
  | nil =>
    cases h
    rfl
  | cons rule rest ih =>
    obtain ⟨w, hstep, hrest⟩ := Option.bind_eq_some_iff.mp h
    rw [List.mem_cons, not_or] at hreset
    have hperm := perm_setuser hstep (Ne.symm hreset.1) col
    have hlater := ih hrest hreset.2
    by_cases hcol : columnOf rule = some col
    · rw [if_pos hcol] at hperm
      rw [column, List.filter_cons_of_pos (by simpa using hcol), foldRules, hperm]
      exact hlater
    · rw [if_neg hcol] at hperm
      rw [column, List.filter_cons_of_neg (by simpa using hcol), ← hperm]
      exact hlater

theorem enabled_of_setusers (h : setusers u rules = some v) (hreset : "reset".toList ∉ rules) :
    v.enabled = rules.foldl switch u.enabled := by
  induction rules generalizing u with
  | nil =>
    cases h
    rfl
  | cons rule rest ih =>
    obtain ⟨w, hstep, hrest⟩ := Option.bind_eq_some_iff.mp h
    rw [List.mem_cons, not_or] at hreset
    rw [ih hrest hreset.2, enabled_setuser hstep (Ne.symm hreset.1), List.foldl_cons]

theorem selectors_of_setusers (h : setusers u rules = some v) (hreset : "reset".toList ∉ rules) :
    v.selectors = u.selectors ++ rules.filter fun rule => rule.head? = some '(' := by
  induction rules generalizing u with
  | nil =>
    cases h
    simp
  | cons rule rest ih =>
    obtain ⟨w, hstep, hrest⟩ := Option.bind_eq_some_iff.mp h
    rw [List.mem_cons, not_or] at hreset
    rw [ih hrest hreset.2, selectors_setuser hstep (Ne.symm hreset.1)]
    by_cases hopen : rule.head? = some '('
    · simp [hopen]
    · simp [hopen]

theorem skip_of_setusers_not (h : setusers u rules = some v) (hreset : "reset".toList ∉ rules)
    (hskip : "skip-sanitize-payload".toList ∉ rules) (hu : u.skipSanitize = false) :
    v.skipSanitize = false := by
  induction rules generalizing u with
  | nil =>
    cases h
    exact hu
  | cons rule rest ih =>
    obtain ⟨w, hstep, hrest⟩ := Option.bind_eq_some_iff.mp h
    rw [List.mem_cons, not_or] at hreset hskip
    apply ih hrest hreset.2 hskip.2
    rw [skip_setuser hstep (Ne.symm hreset.1), if_neg (Ne.symm hskip.1), hu, ite_self]

theorem skip_of_setusers (h : setusers u rules = some v) (hreset : "reset".toList ∉ rules)
    (hsanitize : "sanitize-payload".toList ∉ rules)
    (hskip : "skip-sanitize-payload".toList ∈ rules ∨ u.skipSanitize = true) :
    v.skipSanitize = true := by
  induction rules generalizing u with
  | nil =>
    cases h
    exact hskip.resolve_left List.not_mem_nil
  | cons rule rest ih =>
    obtain ⟨w, hstep, hrest⟩ := Option.bind_eq_some_iff.mp h
    rw [List.mem_cons, not_or] at hreset hsanitize
    apply ih hrest hreset.2 hsanitize.2
    rw [skip_setuser hstep (Ne.symm hreset.1), if_neg (Ne.symm hsanitize.1)]
    by_cases hsame : rule = "skip-sanitize-payload".toList
    · exact .inr (if_pos hsame)
    · rw [if_neg hsame]
      exact hskip.imp_left fun hmem => (List.mem_cons.mp hmem).resolve_left (Ne.symm hsame)

theorem drop_of_head {c : Char} {text : Text} (h : rule.head? = some c) :
    text = rule.drop 1 ↔ c :: text = rule := by
  cases rule with
  | nil => cases h
  | cons d more =>
    rw [List.head?_cons, Option.some.injEq] at h
    rw [h]
    simp

/-- The passwords are those among the arguments, and those that were there. -/
theorem passwords_of_setusers (h : setusers u rules = some v) (hreset : "reset".toList ∉ rules)
    (hnone : "nopass".toList ∉ rules) (hu : u.noPassword = false) :
    v.noPassword = false ∧ ∀ hash, hash ∈ v.passwords ↔ hash ∈ u.passwords ∨ '#' :: hash ∈ rules := by
  induction rules generalizing u with
  | nil =>
    cases h
    exact ⟨hu, fun hash => by simp⟩
  | cons rule rest ih =>
    obtain ⟨w, hstep, hrest⟩ := Option.bind_eq_some_iff.mp h
    rw [List.mem_cons, not_or] at hreset hnone
    obtain ⟨-, hhash, hother⟩ := passwords_setuser hstep (Ne.symm hreset.1)
    by_cases hhead : rule.head? = some '#'
    · obtain ⟨hno, hpasswords⟩ := hhash hhead
      obtain ⟨hv, hv'⟩ := ih hrest hreset.2 hnone.2 hno
      refine ⟨hv, fun hash => ?_⟩
      rw [hv', hpasswords, Finset.mem_insert, List.mem_cons, drop_of_head hhead, or_assoc,
        or_left_comm]
    · obtain ⟨hno, hpasswords⟩ := hother (Ne.symm hnone.1) hhead
      obtain ⟨hv, hv'⟩ := ih hrest hreset.2 hnone.2 (hno.trans hu)
      refine ⟨hv, fun hash => ?_⟩
      have hne : ¬ '#' :: hash = rule := by
        rintro rfl
        exact hhead rfl
      rw [hv', hpasswords, List.mem_cons, or_iff_right hne]

theorem noPassword_of_setusers (h : setusers u rules = some v) (hreset : "reset".toList ∉ rules)
    (hhash : ∀ rule ∈ rules, rule.head? ≠ some '#') (hu : u.passwords = ∅)
    (hnone : "nopass".toList ∈ rules ∨ u.noPassword = true) :
    v.noPassword = true ∧ v.passwords = ∅ := by
  induction rules generalizing u with
  | nil =>
    cases h
    exact ⟨hnone.resolve_left List.not_mem_nil, hu⟩
  | cons rule rest ih =>
    obtain ⟨w, hstep, hrest⟩ := Option.bind_eq_some_iff.mp h
    rw [List.mem_cons, not_or] at hreset
    obtain ⟨hpass, -, hother⟩ := passwords_setuser hstep (Ne.symm hreset.1)
    have hlater := ih hrest hreset.2 fun rule hrule => hhash rule (List.mem_cons_of_mem _ hrule)
    by_cases hsame : rule = "nopass".toList
    · obtain ⟨hno, hpasswords⟩ := hpass hsame
      exact hlater hpasswords (.inr hno)
    · obtain ⟨hno, hpasswords⟩ := hother hsame (hhash rule List.mem_cons_self)
      refine hlater (hpasswords.trans hu) (hnone.imp (fun hmem => ?_) hno.trans)
      exact (List.mem_cons.mp hmem).resolve_left (Ne.symm hsame)

/-- A list of known arguments is read where the rules of each column are. -/
theorem exists_setusers (hknown : ∀ rule ∈ rules, Known rule) (hreset : "reset".toList ∉ rules)
    (hperm : ∀ col, ∃ p, foldRules s col (u.perm col) (column col rules) = some p) :
    ∃ v, setusers u rules = some v := by
  induction rules generalizing u with
  | nil => exact ⟨u, rfl⟩
  | cons rule rest ih =>
    rw [List.mem_cons, not_or] at hreset
    have hstep : ∃ w, setuser u rule = some w := by
      by_cases hcol : ∃ col, columnOf rule = some col
      · obtain ⟨col, hcol⟩ := hcol
        obtain ⟨p, hp⟩ := hperm col
        rw [column, List.filter_cons_of_pos (by simpa using hcol), foldRules] at hp
        obtain ⟨q, hq, -⟩ := Option.bind_eq_some_iff.mp hp
        exact ⟨u.setPerm col q, by rw [setuser_column hcol, hq]; rfl⟩
      · have hkind := hknown rule List.mem_cons_self
        have hnone : columnOf rule = none := by
          cases hc : columnOf rule with
          | none => rfl
          | some col => exact absurd ⟨col, hc⟩ hcol
        cases hu : setuser u rule with
        | some w => exact ⟨w, rfl⟩
        | none =>
          simp only [setuser, hnone, ite_eq_iff, reduceCtorEq, and_false, false_or, and_true] at hu
          obtain ⟨h1, h2, h3, h4, h5, h6, hhash, hopen⟩ := hu
          rcases hkind with hword | hhead | hhead | hsome
          · simp only [stateWords, List.mem_cons, List.not_mem_nil, or_false] at hword
            rcases hword with hw | hw | hw | hw | hw | hw
            · exact absurd hw h1
            · exact absurd hw h2
            · exact absurd hw h3
            · exact absurd hw h4
            · exact absurd hw h5
            · exact absurd hw h6
          · exact absurd hhead hhash
          · exact absurd hhead hopen
          · exact absurd hsome hcol
    obtain ⟨w, hw⟩ := hstep
    have hlater : ∀ col, ∃ p, foldRules s col (w.perm col) (column col rest) = some p := by
      intro col
      obtain ⟨p, hp⟩ := hperm col
      have hone := perm_setuser hw (Ne.symm hreset.1) col
      by_cases hcol : columnOf rule = some col
      · rw [if_pos hcol] at hone
        rw [column, List.filter_cons_of_pos (by simpa using hcol), foldRules, hone] at hp
        exact ⟨p, hp⟩
      · rw [if_neg hcol] at hone
        rw [column, List.filter_cons_of_neg (by simpa using hcol), ← hone] at hp
        exact ⟨p, hp⟩
    obtain ⟨v, hv⟩ := ih (fun rule hrule => hknown rule (List.mem_cons_of_mem _ hrule)) hreset.2
      hlater
    exact ⟨v, by rw [setusers_cons, hw]; exact hv⟩

/-- No blank comes from rules without one. -/
theorem blank_of_setusers (hs : s.Documented) (h : setusers u rules = some v)
    (hrules : ∀ rule ∈ rules, ∀ col, columnOf rule = some col → NoBlank rule)
    (hu : ∀ col, ¬ s.blank (u.perm col)) : ∀ col, ¬ s.blank (v.perm col) := by
  induction rules generalizing u with
  | nil =>
    cases h
    exact hu
  | cons rule rest ih =>
    obtain ⟨w, hstep, hrest⟩ := Option.bind_eq_some_iff.mp h
    refine ih hrest (fun rule hrule => hrules rule (List.mem_cons_of_mem _ hrule)) fun col => ?_
    by_cases hreset : rule = "reset".toList
    · rw [hreset] at hstep
      cases hstep
      exact hs.none col
    · have hone := perm_setuser hstep hreset col
      by_cases hcol : columnOf rule = some col
      · rw [if_pos hcol] at hone
        exact hs.rule hone (hrules rule List.mem_cons_self col hcol) (hu col)
      · rw [if_neg hcol] at hone
        rw [hone]
        exact hu col

end Setusers

/-! ## What a line is read as -/

section Reading

variable {name : Text} {rule : Text} {rules selectors : List Text}

/-- A user after one field, whose column is told by the server's rule. -/
def AclUser.read (user : AclUser) (count : Nat) (rules : List Text) : AclUser :=
  { user with
    enabled := rules.foldl switch user.enabled
    noPassword := user.noPassword || rules.any fun rule => rule = "nopass".toList
    passwordCount := count
    keyPatterns := user.keyPatterns ++ column .keys rules
    channelPatterns := user.channelPatterns ++ column .channels rules }

theorem column_of_none (h : columnOf rule = none) (col : Column) : column col [rule] = [] := by
  simp [column, h]

theorem column_of_some {own : Column} (h : columnOf rule = some own) (col : Column) :
    column col [rule] = if col = own then [rule] else [] := by
  by_cases hsame : col = own
  · simp [column, h, hsame]
  · simp [column, h, hsame, Ne.symm hsame]

/-- A field that is no switch and no word for a password only stands in its column. -/
theorem read_of_column {own : Option Column} (h : columnOf rule = own)
    (hwords : rule ≠ "on".toList ∧ rule ≠ "off".toList ∧ rule ≠ "nopass".toList) (user : AclUser)
    (count : Nat) :
    user.read count [rule] =
      { user with
        passwordCount := count
        keyPatterns := if own = some .keys then user.keyPatterns ++ [rule] else user.keyPatterns
        channelPatterns :=
          if own = some .channels then user.channelPatterns ++ [rule] else user.channelPatterns } := by
  have hswitch := switch_other user.enabled hwords.1 hwords.2.1
  have hno : decide (rule = "nopass".toList) = false := decide_eq_false hwords.2.2
  simp only [AclUser.read, List.foldl_cons, List.foldl_nil, hswitch, List.any_cons, List.any_nil, hno,
    Bool.or_false]
  rcases own with - | (- | - | -) <;> simp [column, h]

/-- A word that stands for itself stands in no column. -/
theorem read_of_stateWord (h : rule ∈ stateWords) (user : AclUser) (count : Nat) :
    user.read count [rule] =
      { user with
        enabled := switch user.enabled rule
        noPassword := user.noPassword || rule = "nopass".toList
        passwordCount := count } := by
  have hnone := column_of_none (columnOf_stateWords _ h)
  simp only [AclUser.read, List.foldl_cons, List.foldl_nil, List.any_cons, List.any_nil,
    Bool.or_false, hnone, List.append_nil]

/-- **One field** is sorted into the column that it stands in for the server. -/
theorem parseFields_cons (user : AclUser) (commands rest : List Text)
    (hopen : rule.head? ≠ some '(') :
    ∃ count, parseFields (rule :: rest) (user, commands) =
      parseFields rest (user.read count [rule], commands ++ column .commands [rule]) := by
  have hnone : ∀ {word}, word ∈ stateWords → column .commands [word] = [] := fun hword =>
    column_of_none (columnOf_stateWords _ hword) _
  rw [parseFields]
  by_cases hon : rule = "on".toList
  · refine ⟨user.passwordCount, ?_⟩
    rw [if_pos hon, hon, hnone (by decide), read_of_stateWord (by decide)]
    simp [switch]
  rw [if_neg hon]
  by_cases hoff : rule = "off".toList
  · refine ⟨user.passwordCount, ?_⟩
    rw [if_pos hoff, hoff, hnone (by decide), read_of_stateWord (by decide)]
    simp [switch]
  rw [if_neg hoff]
  by_cases hnopass : rule = "nopass".toList
  · refine ⟨user.passwordCount, ?_⟩
    rw [if_pos hnopass, hnopass, hnone (by decide), read_of_stateWord (by decide)]
    simp [switch]
  rw [if_neg hnopass]
  by_cases hhash : rule.head? = some '#'
  · have hcol := columnOf_head (.inl rfl) hhash
    refine ⟨user.passwordCount + 1, ?_⟩
    rw [if_pos hhash, read_of_column hcol ⟨hon, hoff, hnopass⟩, column_of_none hcol]
    simp
  rw [if_neg hhash, if_neg hopen]
  refine ⟨user.passwordCount, ?_⟩
  by_cases hkeys : rule = "allkeys".toList ∨ rule.head? = some '~' ∨ rule.head? = some '%'
  · have hcol : columnOf rule = some .keys := if_pos hkeys
    rw [if_pos hkeys, read_of_column hcol ⟨hon, hoff, hnopass⟩, column_of_some hcol]
    simp
  rw [if_neg hkeys]
  by_cases hchannels : rule = "allchannels".toList ∨ rule = "resetchannels".toList ∨
      rule.head? = some '&'
  · have hcol : columnOf rule = some .channels := by rw [columnOf, if_neg hkeys, if_pos hchannels]
    rw [if_pos hchannels, read_of_column hcol ⟨hon, hoff, hnopass⟩, column_of_some hcol]
    simp
  rw [if_neg hchannels]
  by_cases hcommands : rule.head? = some '+' ∨ rule.head? = some '-'
  · have hcol : columnOf rule = some .commands := by
      rw [columnOf, if_neg hkeys, if_neg hchannels, if_pos hcommands]
    rw [if_pos hcommands, read_of_column hcol ⟨hon, hoff, hnopass⟩, column_of_some hcol]
    simp
  · have hcol : columnOf rule = none := by
      rw [columnOf, if_neg hkeys, if_neg hchannels, if_neg hcommands]
    rw [if_neg hcommands, read_of_column hcol ⟨hon, hoff, hnopass⟩, column_of_none hcol]
    simp

/-- A selector takes the rest of the line. -/
theorem parseFields_selector (user : AclUser) (commands rest : List Text) (more : Text) :
    parseFields (('(' :: more) :: rest) (user, commands) =
      ({ user with selectors := user.selectors ++ [joinSpace (('(' :: more) :: rest)] }, commands) := by
  rw [parseFields]
  simp

theorem read_append (user : AclUser) (count count' : Nat) (xs ys : List Text) :
    (user.read count xs).read count' ys = user.read count' (xs ++ ys) := by
  simp [AclUser.read, column, List.foldl_append, Bool.or_assoc]

/-- **The rules of a line** are sorted into the columns that they stand in for the server. -/
theorem parseFields_append (user : AclUser) (commands more : List Text)
    (hopen : ∀ rule ∈ rules, rule.head? ≠ some '(') :
    ∃ count, parseFields (rules ++ more) (user, commands) =
      parseFields more (user.read count rules, commands ++ column .commands rules) := by
  induction rules generalizing user commands with
  | nil => exact ⟨user.passwordCount, by simp [AclUser.read, column]⟩
  | cons rule rest ih =>
    obtain ⟨count, hone⟩ := parseFields_cons user commands (rest ++ more)
      (hopen rule List.mem_cons_self)
    obtain ⟨count', hlater⟩ := ih (user.read count [rule])
      (commands ++ column .commands [rule]) fun rule hrule => hopen rule (List.mem_cons_of_mem _ hrule)
    refine ⟨count', ?_⟩
    rw [List.cons_append, hone, hlater, read_append, List.append_assoc]
    have hcolumn : column .commands [rule] ++ column .commands rest =
        column .commands (rule :: rest) := by
      rw [column, column, column, ← List.filter_append, List.singleton_append]
    rw [hcolumn, List.singleton_append]

theorem isSpace_space : isSpace ' ' = true := by decide

theorem isWhiteSpace_space : isWhiteSpace ' ' = true := by decide

/-- The letters of a line are those of its words, and blanks. -/
theorem mem_joinSpace {c : Char} {texts : List Text} (h : c ∈ joinSpace texts) :
    c = ' ' ∨ ∃ text ∈ texts, c ∈ text := by
  induction texts with
  | nil => simp [joinSpace] at h
  | cons text rest ih =>
    cases rest with
    | nil =>
      rw [joinSpace, List.intercalate_singleton] at h
      exact .inr ⟨text, List.mem_cons_self, h⟩
    | cons next others =>
      rw [joinSpace, List.intercalate_cons_cons, List.append_assoc, List.mem_append,
        List.singleton_append, List.mem_cons] at h
      rcases h with hfirst | hsep | hlater
      · exact .inr ⟨text, List.mem_cons_self, hfirst⟩
      · exact .inl hsep
      · rcases ih hlater with hsep | ⟨other, hother, hc⟩
        · exact .inl hsep
        · exact .inr ⟨other, List.mem_cons_of_mem _ hother, hc⟩

theorem isField_user : Words.IsField isSpace "user".toList :=
  Words.isField_of_all (by decide) (by decide)

theorem fields_lineOf (hname : Words.IsField isSpace name)
    (hrules : ∀ rule ∈ rules, Words.IsField isSpace rule) :
    fields (lineOf name rules selectors) =
      "user".toList :: name :: (rules ++ selectors.flatMap fields) := by
  have hplain : rules.flatMap (Words.fieldsFunc isSpace) = rules := by
    induction rules with
    | nil => rfl
    | cons rule rest ih =>
      rw [List.flatMap_cons, Words.fieldsFunc_of_isField (hrules rule List.mem_cons_self),
        ih fun rule hrule => hrules rule (List.mem_cons_of_mem _ hrule)]
      rfl
  rw [fields, lineOf, joinSpace, Words.fieldsFunc_intercalate_flatMap _ _ isSpace_space,
    List.flatMap_cons, List.flatMap_cons, List.flatMap_append, hplain,
    Words.fieldsFunc_of_isField isField_user, Words.fieldsFunc_of_isField hname]
  rfl

/-- From a selector on the rest of the line is taken whole. -/
theorem parseFields_selectors (hselectors : ∀ rule ∈ selectors, rule.head? = some '(')
    (user : AclUser) (commands : List Text) :
    ∃ taken, parseFields (selectors.flatMap fields) (user, commands) =
      ({ user with selectors := taken }, commands) := by
  cases selectors with
  | nil => exact ⟨user.selectors, rfl⟩
  | cons selector rest =>
    have hhead := hselectors selector List.mem_cons_self
    obtain ⟨more, rfl⟩ := List.head?_eq_some_iff.mp hhead
    obtain ⟨first, others, hfields⟩ :=
      Words.fieldsFunc_cons_letter (p := isSpace) (x := '(') (by decide) more
    refine ⟨user.selectors ++ [joinSpace (('(' :: first) :: (others ++ rest.flatMap fields))], ?_⟩
    rw [List.flatMap_cons, fields, hfields, List.cons_append, parseFields_selector]

/-- **A line without blanks in its rules** is read as its columns. -/
theorem parseAclUser_lineOf (hname : Words.IsField isSpace name)
    (hrules : ∀ rule ∈ rules, Words.IsField isSpace rule)
    (hopen : ∀ rule ∈ rules, rule.head? ≠ some '(')
    (hselectors : ∀ rule ∈ selectors, rule.head? = some '(') :
    ∃ count taken, parseAclUser (lineOf name rules selectors) =
      some { (newAclUser name (lineOf name rules selectors)).read count rules with
        commandRules := joinSpace (column .commands rules), selectors := taken } := by
  obtain ⟨count, hread⟩ := parseFields_append (newAclUser name (lineOf name rules selectors)) []
    (selectors.flatMap fields) hopen
  obtain ⟨taken, htaken⟩ := parseFields_selectors hselectors
    ((newAclUser name (lineOf name rules selectors)).read count rules) ([] ++ column .commands rules)
  refine ⟨count, taken, ?_⟩
  rw [parseAclUser, fields_lineOf hname hrules]
  simp only [hread, htaken, if_true]
  rfl

end Reading

/-! ## What a save sends -/

section Sending

variable {name : Text} {rules selectors : List Text}

/-- What is sent behind the reset. -/
def resend (enabled noPassword : Bool) (hashes rules : List Text) : List Text :=
  (if enabled then "on".toList else "off".toList) ::
    ((if noPassword then ["nopass".toList] else hashes.map ('#' :: ·)) ++
      column .keys rules ++ column .channels rules ++ column .commands rules)

theorem isSpace_of_noBlank {word : Text} (h : NoBlank word) : ∀ c ∈ word, isSpace c = false := by
  intro c hc
  have := h c hc
  rw [isBlank, Bool.or_eq_false_iff] at this
  exact this.1

theorem isWhiteSpace_of_noBlank {word : Text} (h : NoBlank word) :
    ∀ c ∈ word, isWhiteSpace c = false := by
  intro c hc
  have := h c hc
  rw [isBlank, Bool.or_eq_false_iff] at this
  exact this.2

theorem mem_column {col : Column} {rule : Text} :
    rule ∈ column col rules ↔ rule ∈ rules ∧ columnOf rule = some col := by
  simp [column]

theorem ne_nil_of_columnOf {rule : Text} {col : Column} (h : columnOf rule = some col) :
    rule ≠ [] := by
  rintro rfl
  revert h
  cases col <;> decide

/-- A column without blanks goes through the form and the driver as it is. -/
theorem trimmed_words (hblanks : ∀ rule ∈ rules, ∀ col, columnOf rule = some col → NoBlank rule)
    (col : Column) : trimmed (words (joinSpace (column col rules))) = column col rules := by
  have hplain : ∀ rule ∈ column col rules, NoBlank rule ∧ rule ≠ [] := by
    intro rule hrule
    obtain ⟨hmem, hcol⟩ := mem_column.mp hrule
    exact ⟨hblanks rule hmem col hcol, ne_nil_of_columnOf hcol⟩
  have hwords : words (joinSpace (column col rules)) = column col rules :=
    Words.fieldsFunc_intercalate _ _ isWhiteSpace_space _ fun rule hrule =>
      ⟨(hplain rule hrule).2, isWhiteSpace_of_noBlank (hplain rule hrule).1⟩
  have hmap : (column col rules).map trimSpace = column col rules := by
    have := List.map_congr_left fun rule hrule =>
      Words.trim_eq_self (isSpace_of_noBlank (hplain rule hrule).1)
    rw [List.map_id'] at this
    exact this
  rw [trimmed, hwords, hmap, List.filter_eq_self]
  intro rule hrule
  simpa using (hplain rule hrule).2

/-- A listing that still has a line, and no other that is read as a user of the same name. -/
def Listed (listing : List Text) (line : Text) : Prop :=
  line ∈ listing ∧ ∀ other ∈ listing, ∀ user user', parseAclUser line = some user →
    parseAclUser other = some user' → user'.name = user.name → user' = user

theorem aclUser_of_listed {listing : List Text} {line : Text} {user : AclUser}
    (h : Listed listing line) (hread : parseAclUser line = some user) :
    aclUser listing user.name = some user := by
  have hmem : ∀ {other}, other ∈ listAclUsers listing ↔ other ∈ listing.filterMap parseAclUser :=
    fun {other} => (List.perm_insertionSort _ _).mem_iff
  cases hfind : aclUser listing user.name with
  | none =>
    have hnone := List.find?_eq_none.mp hfind user
      (hmem.mpr (List.mem_filterMap.mpr ⟨line, h.1, hread⟩))
    simp at hnone
  | some other =>
    obtain ⟨line', hline', hother⟩ :=
      List.mem_filterMap.mp (hmem.mp (List.mem_of_find?_eq_some hfind))
    have hname : other.name = user.name := by simpa using List.find?_some hfind
    rw [h.2 line' hline' user other hread hother hname]

/-- **What a save sends** of a line without blanks in its rules. -/
theorem saveAclUser_readBack (listing : List Text) (hname : Words.IsField isSpace name)
    (htrim : trim name = name) (hrules : ∀ rule ∈ rules, Words.IsField isSpace rule)
    (hopen : ∀ rule ∈ rules, rule.head? ≠ some '(')
    (hselectors : ∀ rule ∈ selectors, rule.head? = some '(')
    (hblanks : ∀ rule ∈ rules, ∀ col, columnOf rule = some col → NoBlank rule) :
    ∃ user hashes, parseAclUser (lineOf name rules selectors) = some user ∧
      saveAclUser listing (toDraft (toForm user)) =
        .ok (name, "reset".toList :: resend (rules.foldl switch false)
          (rules.any fun rule => rule = "nopass".toList) hashes rules) ∧
      (Listed listing (lineOf name rules selectors) → "nopass".toList ∉ rules →
        hashes = passwordHashesOf (lineOf name rules selectors)) := by
  obtain ⟨count, taken, hread⟩ := parseAclUser_lineOf hname hrules hopen hselectors
  set line := lineOf name rules selectors
  set user : AclUser := { (newAclUser name line).read count rules with
    commandRules := joinSpace (column .commands rules), selectors := taken } with huser
  have hsent : trimSpace name = name := Words.trim_eq_self hname.2
  have hcontrol : (name.any fun c => c = ' ' || c = '\t' || c = '\r' || c = '\n') = false := by
    rw [List.any_eq_false]
    intro c hc hblank
    have hspace := hname.2 c hc
    simp only [Bool.or_eq_true, decide_eq_true_eq] at hblank
    rcases hblank with ((rfl | rfl) | rfl) | rfl <;> revert hspace <;> decide
  have hkeys := trimmed_words hblanks .keys
  have hchannels := trimmed_words hblanks .channels
  have hcommands := trimmed_words hblanks .commands
  have hno : user.noPassword = rules.any fun rule => rule = "nopass".toList := Bool.false_or _
  have hspecname : (toDraft (toForm user)).name = name := htrim
  have hspeckeys : (toDraft (toForm user)).keyPatterns = words (joinSpace (column .keys rules)) :=
    rfl
  have hspecchannels : (toDraft (toForm user)).channelPatterns =
      words (joinSpace (column .channels rules)) := rfl
  have hspeccommands : (toDraft (toForm user)).commandRules =
      words (joinSpace (column .commands rules)) := rfl
  have hspecenabled : (toDraft (toForm user)).enabled = rules.foldl switch false := rfl
  have hspecpassword : (toDraft (toForm user)).password = [] := by
    cases hpass : user.noPassword <;> simp [toDraft, toForm, hpass]
  have hspecclear : (toDraft (toForm user)).clearPasswords = false := by
    cases hpass : user.noPassword <;> simp [toDraft, toForm, hpass]
  have hspecno : (toDraft (toForm user)).noPassword = user.noPassword := by
    cases hpass : user.noPassword <;> simp [toDraft, toForm, hpass]
  refine ⟨user, if user.noPassword then []
    else ((aclUser listing name).map fun existing => passwordHashesOf existing.rule).getD [],
    hread, ?_, ?_⟩
  · rw [saveAclUser]
    simp only [hspecname, hsent, hname.1, if_false, hcontrol, Bool.false_eq_true, buildAclRules,
      hspecpassword, hspecclear, hspecno, hspecenabled, hspeckeys, hspecchannels, hspeccommands,
      hkeys, hchannels, hcommands, ← hno]
    cases hpass : user.noPassword with
    | true => simp [resend]
    | false =>
      cases aclUser listing name <;> simp [resend]
  · intro hlisted hnone
    have hpass : user.noPassword = false := by
      rw [hno, List.any_eq_false]
      intro rule hrule hsame
      exact hnone (of_decide_eq_true hsame ▸ hrule)
    have hfound : aclUser listing name = some user := aclUser_of_listed hlisted hread
    rw [if_neg (by simp [hpass]), hfound]
    rfl

/-- Whose name, patterns and commands all have a property. -/
structure DrawnFrom (ok : Text → Prop) (read : AclUser × List Text) : Prop where
  name : ok read.1.name
  keys : ∀ rule ∈ read.1.keyPatterns, ok rule
  channels : ∀ rule ∈ read.1.channelPatterns, ok rule
  commands : ∀ rule ∈ read.2, ok rule

/-- A field that has the property adds nothing that lacks it. -/
theorem DrawnFrom.read {ok : Text → Prop} {user : AclUser} {commands : List Text}
    (h : DrawnFrom ok (user, commands)) {field : Text} (hfield : ok field) (count : Nat) :
    DrawnFrom ok (user.read count [field], commands ++ column .commands [field]) := by
  have hadd : ∀ (col : Column) (xs : List Text), (∀ rule ∈ xs, ok rule) →
      ∀ rule ∈ xs ++ column col [field], ok rule := by
    intro col xs hxs rule hrule
    rcases List.mem_append.mp hrule with hold | hnew
    · exact hxs rule hold
    · rw [List.mem_singleton.mp (mem_column.mp hnew).1]
      exact hfield
  exact ⟨h.name, hadd _ _ h.keys, hadd _ _ h.channels, hadd _ _ h.commands⟩

theorem drawnFrom_parseFields {ok : Text → Prop} {user : AclUser} {commands line : List Text}
    (hline : ∀ field ∈ line, ok field) (h : DrawnFrom ok (user, commands)) :
    DrawnFrom ok (parseFields line (user, commands)) := by
  induction line generalizing user commands with
  | nil => exact h
  | cons field rest ih =>
    rw [List.forall_mem_cons] at hline
    by_cases hopen : field.head? = some '('
    · obtain ⟨more, rfl⟩ := List.head?_eq_some_iff.mp hopen
      rw [parseFields_selector]
      exact ⟨h.name, h.keys, h.channels, h.commands⟩
    · obtain ⟨count, hread⟩ := parseFields_cons user commands rest hopen
      rw [hread]
      exact ih hline.2 (h.read hline.1 count)

/-- What comes through the form and the driver has no blank. -/
theorem noBlank_of_trimmed {texts : List Text} (htexts : ∀ text ∈ texts, ∀ c ∈ text, isSpace c = false)
    {rule : Text} (h : rule ∈ trimmed (words (joinSpace texts))) : NoBlank rule := by
  obtain ⟨word, hword, rfl⟩ := List.mem_map.mp (List.mem_filter.mp h).1
  intro c hc
  have hc' : c ∈ word := Words.mem_of_mem_trim hc
  have hwhite := (Words.isField_of_mem_fieldsFunc _ _ word hword).2 c hc'
  rw [isBlank, hwhite, Bool.or_false]
  rcases mem_joinSpace (Words.mem_of_mem_fieldsFunc hword hc') with rfl | ⟨text, htext, hctext⟩
  · rw [isWhiteSpace_space] at hwhite
    cases hwhite
  · exact htexts text htext c hctext

/-- Every word of a user is a field of its line. -/
theorem drawnFrom_parseAclUser {line : Text} {user : AclUser} (h : parseAclUser line = some user) :
    ∃ commands, user.commandRules = joinSpace commands ∧
      DrawnFrom (Words.IsField isSpace) (user, commands) := by
  have hfields : ∀ field ∈ fields line, Words.IsField isSpace field :=
    Words.isField_of_mem_fieldsFunc isSpace line
  unfold parseAclUser at h
  split at h
  · rename_i head name rest hline
    rw [hline] at hfields
    have hname := hfields name (List.mem_cons_of_mem _ List.mem_cons_self)
    have hdrawn : DrawnFrom (Words.IsField isSpace)
        (parseFields rest (newAclUser name line, [])) :=
      drawnFrom_parseFields
        (fun field hf => hfields field (List.mem_cons_of_mem _ (List.mem_cons_of_mem _ hf)))
        ⟨hname, by simp [newAclUser], by simp [newAclUser], by simp⟩
    split at h
    · rw [← Option.some.inj h]
      exact ⟨_, rfl, hdrawn.name, hdrawn.keys, hdrawn.channels, hdrawn.commands⟩
    · cases h
  · cases h

/-- A save that is not refused is for the trimmed name. -/
theorem saveAclUser_eq_ok {listing sent : List Text} {spec : AclUserSpec}
    (h : saveAclUser listing spec = .ok (name, sent)) :
    name = trimSpace spec.name ∧ name ≠ [] ∧ ∃ hashes, sent = buildAclRules spec hashes := by
  rw [saveAclUser] at h
  simp only at h
  split at h
  · cases h
  · rename_i hempty
    split at h
    · cases h
    · rw [Except.ok.injEq, Prod.mk.injEq] at h
      obtain ⟨rfl, rfl⟩ := h
      exact ⟨rfl, hempty, _, rfl⟩

/-- **What a save sends of any line**: a reset, and then no rule with a blank; and for a name that
    has been trimmed. -/
theorem sent_of_saveAclUser {line : Text} {user : AclUser} (hread : parseAclUser line = some user)
    {listing sent : List Text} (hsave : saveAclUser listing (toDraft (toForm user)) = .ok (name, sent)) :
    (∃ rest, sent = "reset".toList :: rest ∧
      ∀ rule ∈ rest, ∀ col, columnOf rule = some col → NoBlank rule) ∧
    name = trimSpace (trim user.name) ∧ name ≠ [] := by
  obtain ⟨commands, hcommandRules, hdrawn⟩ := drawnFrom_parseAclUser hread
  have hletters : ∀ {texts : List Text}, (∀ text ∈ texts, Words.IsField isSpace text) →
      ∀ {rule}, rule ∈ trimmed (words (joinSpace texts)) → NoBlank rule := by
    intro texts htexts rule hrule
    exact noBlank_of_trimmed (fun text htext => (htexts text htext).2) hrule
  have hpassword : (toDraft (toForm user)).password = [] := by
    cases hpass : user.noPassword <;> simp [toDraft, toForm, hpass]
  have hnone : ∀ {rule col}, rule ∈ stateWords → columnOf rule = some col → NoBlank rule :=
    fun hword hcol => absurd hword (not_mem_stateWords hcol)
  obtain ⟨hname, hne, hashes, hsent⟩ := saveAclUser_eq_ok hsave
  rw [buildAclRules] at hsent
  simp only [List.cons_append, List.nil_append] at hsent
  refine ⟨⟨_, hsent, fun rule hrule col hcol => ?_⟩, hname, hne⟩
  simp only [List.mem_cons, List.mem_append] at hrule
  rcases hrule with hswitch | ((hauth | hkeys) | hchannels) | hcommands
  · refine hnone ?_ hcol
    rw [hswitch]
    split <;> decide
  · rw [hpassword] at hauth
    split_ifs at hauth with h1 h2
    · refine hnone ?_ hcol
      rw [List.mem_singleton.mp hauth]
      decide
    · exact absurd rfl h2
    · obtain ⟨hash, -, rfl⟩ := List.mem_map.mp hauth
      rw [columnOf_head (.inl rfl) rfl] at hcol
      cases hcol
    · cases hauth
  · exact hletters hdrawn.keys hkeys
  · exact hletters hdrawn.channels hchannels
  · apply hletters hdrawn.commands
    rw [← hcommandRules]
    exact hcommands

end Sending

/-! ## An unedited save -/

section Unedited

variable {s : Server} {u v : User s} {name : Text} {rules selectors : List Text}

theorem mem_resend {enabled noPassword : Bool} {hashes : List Text} {rule : Text}
    (h : rule ∈ resend enabled noPassword hashes rules) :
    rule = (if enabled then "on".toList else "off".toList) ∨
      (noPassword = true ∧ rule = "nopass".toList) ∨
      (noPassword = false ∧ ∃ hash ∈ hashes, rule = '#' :: hash) ∨
      ∃ col, columnOf rule = some col ∧ rule ∈ rules := by
  simp only [resend, List.mem_cons, List.mem_append, mem_column] at h
  rcases h with hswitch | ((hauth | hkeys) | hchannels) | hcommands
  · exact .inl hswitch
  · cases noPassword with
    | true => exact .inr (.inl ⟨rfl, by simpa using hauth⟩)
    | false =>
      obtain ⟨hash, hhash, rfl⟩ := List.mem_map.mp hauth
      exact .inr (.inr (.inl ⟨rfl, hash, hhash, rfl⟩))
  · exact .inr (.inr (.inr ⟨_, hkeys.2, hkeys.1⟩))
  · exact .inr (.inr (.inr ⟨_, hchannels.2, hchannels.1⟩))
  · exact .inr (.inr (.inr ⟨_, hcommands.2, hcommands.1⟩))

/-- What is sent is known to the server, and neither resets, nor skips, nor selects. -/
theorem resend_known {enabled noPassword : Bool} {hashes : List Text} {rule : Text}
    (h : rule ∈ resend enabled noPassword hashes rules) :
    Known rule ∧ rule ≠ "reset".toList ∧ rule ≠ "skip-sanitize-payload".toList ∧
      rule.head? ≠ some '(' := by
  have hswitch : ∀ enabled : Bool, (if enabled then "on".toList else "off".toList) ∈ stateWords ∧
      (if enabled then "on".toList else "off".toList) ≠ "reset".toList ∧
      (if enabled then "on".toList else "off".toList) ≠ "skip-sanitize-payload".toList := by decide
  rcases mem_resend h with hrule | ⟨-, hrule⟩ | ⟨-, hash, -, hrule⟩ | ⟨col, hcol, -⟩
  · obtain ⟨hword, hreset, hskip⟩ := hswitch enabled
    rw [hrule]
    exact ⟨.inl hword, hreset, hskip, (head_stateWords _ hword).2⟩
  · rw [hrule]
    exact ⟨.inl (by decide), by decide, by decide, by decide⟩
  · rw [hrule]
    refine ⟨.inr (.inl rfl), ?_, ?_, by simp⟩
    · exact ne_of_mem_stateWords (by decide) (.inl rfl)
    · exact ne_of_mem_stateWords (by decide) (.inl rfl)
  · refine ⟨.inr (.inr (.inr ⟨col, hcol⟩)), ?_, ?_, fun hopen => ?_⟩
    · exact ne_of_mem_stateWords (by decide) (.inr (.inr ⟨col, hcol⟩))
    · exact ne_of_mem_stateWords (by decide) (.inr (.inr ⟨col, hcol⟩))
    · rw [columnOf_head (.inr rfl) hopen] at hcol
      cases hcol

theorem reset_resend {enabled noPassword : Bool} {hashes : List Text} :
    "reset".toList ∉ resend enabled noPassword hashes rules :=
  fun h => (resend_known h).2.1 rfl

theorem column_append (col : Column) (xs ys : List Text) :
    column col (xs ++ ys) = column col xs ++ column col ys :=
  List.filter_append ..

theorem column_column (col own : Column) (rules : List Text) :
    column col (column own rules) = if col = own then column own rules else [] := by
  by_cases hsame : col = own
  · rw [if_pos hsame, hsame, column, List.filter_eq_self]
    intro rule hrule
    simpa using (mem_column.mp hrule).2
  · rw [if_neg hsame, column, List.filter_eq_nil_iff]
    intro rule hrule hcol
    have hown := (mem_column.mp hrule).2
    rw [decide_eq_true_eq, hown, Option.some.injEq] at hcol
    exact hsame hcol.symm

/-- The columns of what is sent are those of the line. -/
theorem column_resend (col : Column) (enabled noPassword : Bool) (hashes rules : List Text) :
    column col (resend enabled noPassword hashes rules) = column col rules := by
  have hnil : ∀ rules : List Text, (∀ rule ∈ rules, columnOf rule = none) → column col rules = [] := by
    intro rules hrules
    rw [column, List.filter_eq_nil_iff]
    intro rule hrule
    simp [hrules rule hrule]
  have hswitch : column col [if enabled then "on".toList else "off".toList] = [] := by
    apply hnil
    cases enabled <;> decide
  have hauth : column col (if noPassword then ["nopass".toList] else hashes.map ('#' :: ·)) = [] := by
    apply hnil
    intro rule hrule
    cases noPassword with
    | true =>
      rw [List.mem_singleton.mp hrule]
      decide
    | false =>
      obtain ⟨hash, -, rfl⟩ := List.mem_map.mp hrule
      exact columnOf_head (.inl rfl) rfl
  rw [resend, ← List.singleton_append, column_append, hswitch, column_append, column_append,
    column_append, hauth, column_column, column_column, column_column]
  cases col <;> simp

theorem foldl_switch_other (hrules : ∀ rule ∈ rules, rule ≠ "on".toList ∧ rule ≠ "off".toList)
    (enabled : Bool) : rules.foldl switch enabled = enabled := by
  induction rules with
  | nil => rfl
  | cons rule rest ih =>
    obtain ⟨hon, hoff⟩ := hrules rule List.mem_cons_self
    rw [List.foldl_cons, switch_other _ hon hoff,
      ih fun rule hrule => hrules rule (List.mem_cons_of_mem _ hrule)]

/-- What is sent switches a user as the line does. -/
theorem switch_resend (enabled noPassword : Bool) (hashes rules : List Text) (before : Bool) :
    (resend enabled noPassword hashes rules).foldl switch before = enabled := by
  rw [resend, List.foldl_cons, foldl_switch_other]
  · cases enabled <;> rfl
  · intro rule hrule
    simp only [List.mem_append, mem_column] at hrule
    have hcolumn : ∀ {col}, columnOf rule = some col → rule ≠ "on".toList ∧ rule ≠ "off".toList :=
      fun hcol => ⟨ne_of_mem_stateWords (by decide) (.inr (.inr ⟨_, hcol⟩)),
        ne_of_mem_stateWords (by decide) (.inr (.inr ⟨_, hcol⟩))⟩
    rcases hrule with ((hauth | hkeys) | hchannels) | hcommands
    · cases noPassword with
      | true =>
        rw [List.mem_singleton.mp hauth]
        decide
      | false =>
        obtain ⟨hash, -, rfl⟩ := List.mem_map.mp hauth
        exact ⟨ne_of_mem_stateWords (by decide) (.inl rfl),
          ne_of_mem_stateWords (by decide) (.inl rfl)⟩
    · exact hcolumn hkeys.2
    · exact hcolumn hchannels.2
    · exact hcolumn hcommands.2

namespace Printed

theorem reset (h : Printed u rules selectors) : "reset".toList ∉ rules ++ selectors := by
  intro hmem
  rcases List.mem_append.mp hmem with hrule | hselector
  · exact (h.word _ hrule).2.1 rfl
  · have := h.selector _ hselector
    revert this
    decide

/-- A word that is no selector stands among the rules. -/
theorem mem_rules (h : Printed u rules selectors) {word : Text} (hhead : word.head? ≠ some '(') :
    word ∈ rules ++ selectors ↔ word ∈ rules := by
  rw [List.mem_append, or_iff_left_iff_imp]
  intro hmem
  exact absurd (h.selector word hmem) hhead

theorem selectors_eq (h : Printed u rules selectors) : u.selectors = selectors := by
  have hread := selectors_of_setusers h.read h.reset
  rw [List.filter_append] at hread
  have hnone : (rules.filter fun rule => rule.head? = some '(') = [] := by
    rw [List.filter_eq_nil_iff]
    intro rule hrule
    simpa using (h.word rule hrule).2.2
  have hall : (selectors.filter fun rule => rule.head? = some '(') = selectors := by
    rw [List.filter_eq_self]
    intro rule hrule
    simpa using h.selector rule hrule
  rw [hread, hnone, hall]
  rfl

/-- Its rules are fields, where none of a column has a blank. -/
theorem isField (h : Printed u rules selectors)
    (hblanks : ∀ rule ∈ rules, ∀ col, columnOf rule = some col → NoBlank rule) :
    ∀ rule ∈ rules, Words.IsField isSpace rule := by
  intro rule hrule
  have hne := (h.word rule hrule).1
  rcases known_of_setusers h.read rule (List.mem_append_left _ hrule) with
    hword | hhash | hopen | ⟨col, hcol⟩
  · have hletters : ∀ word ∈ stateWords, (word.all fun c => !isSpace c) = true := by decide
    exact Words.isField_of_all hne (hletters rule hword)
  · exact ⟨hne, isSpace_of_noBlank (h.hash rule hrule hhash)⟩
  · exact absurd hopen (h.word rule hrule).2.2
  · exact ⟨hne, isSpace_of_noBlank (hblanks rule hrule col hcol)⟩

theorem opens (h : Printed u rules selectors) : ∀ rule ∈ rules, rule.head? ≠ some '(' :=
  fun rule hrule => (h.word rule hrule).2.2

end Printed

/-- What a save owes: it is for the user of the line, and what it sends makes of that user itself. -/
def SavesUnchanged (listing : List Text) (u : User s) (name : Text) (rules selectors : List Text) :
    Prop :=
  ∃ user sent, parseAclUser (lineOf name rules selectors) = some user ∧
    saveAclUser listing (toDraft (toForm user)) = .ok (name, sent) ∧ setusers u sent = some u

/-- A line that survives a save: no selector, no payload that goes unchecked, a name that neither the
    driver nor the form cuts and that is no new password, and no rule that they cut. -/
structure Survives (name : Text) (rules selectors : List Text) : Prop where
  selectors : selectors = []
  sanitize : "skip-sanitize-payload".toList ∉ rules
  named : Words.IsField isSpace name ∧ trim name = name
  hash : name.head? = some '#' → "nopass".toList ∈ rules ∨ name ∈ rules
  blanks : ∀ rule ∈ rules, ∀ col, columnOf rule = some col → NoBlank rule

/-- The passwords that are read off a line: its own, and its name where that looks like one. -/
theorem mem_passwordHashesOf (hname : Words.IsField isSpace name)
    (hrules : ∀ rule ∈ rules, Words.IsField isSpace rule) {hash : Text} :
    hash ∈ passwordHashesOf (lineOf name rules []) ↔ '#' :: hash = name ∨ '#' :: hash ∈ rules := by
  have hline : fields (lineOf name rules []) = "user".toList :: name :: rules := by
    rw [fields_lineOf hname hrules]
    simp
  rw [passwordHashesOf, hline]
  simp only [List.mem_map, List.mem_filter, List.mem_cons, decide_eq_true_eq]
  constructor
  · rintro ⟨field, ⟨hfield, hhead⟩, hdrop⟩
    rw [eq_comm, drop_of_head hhead] at hdrop
    rcases hfield with rfl | rfl | hrule
    · cases hhead
    · exact .inl hdrop
    · rw [hdrop]
      exact .inr hrule
  · intro h
    refine ⟨'#' :: hash, ⟨?_, rfl⟩, rfl⟩
    rcases h with hsame | hrule
    · exact .inr (.inl hsame)
    · exact .inr (.inr hrule)

theorem any_nopass_of_not_mem (h : "nopass".toList ∉ rules) :
    (rules.any fun rule => rule = "nopass".toList) = false := by
  rw [List.any_eq_false]
  intro rule hrule hsame
  exact h (of_decide_eq_true hsame ▸ hrule)

theorem any_nopass_of_mem (h : "nopass".toList ∈ rules) :
    (rules.any fun rule => rule = "nopass".toList) = true := by
  rw [List.any_eq_true]
  exact ⟨_, h, decide_eq_true rfl⟩

theorem fresh_passwords : (fresh s).passwords = ∅ := rfl

/-- Of a user that has passwords those are sent that were read. -/
theorem passwords_resend {enabled : Bool} {hashes : List Text}
    (h : setusers (fresh s) (resend enabled false hashes rules) = some v)
    (hnopass : "nopass".toList ∉ rules) :
    v.noPassword = false ∧ ∀ hash, hash ∈ v.passwords ↔ hash ∈ hashes := by
  have hnone : "nopass".toList ∉ resend enabled false hashes rules := by
    intro hmem
    rcases mem_resend hmem with hrule | ⟨hno, -⟩ | ⟨-, hash, -, hrule⟩ | ⟨col, -, hrule⟩
    · revert hrule
      cases enabled <;> decide
    · cases hno
    · cases hrule
    · exact hnopass hrule
  obtain ⟨hno, hwords⟩ := passwords_of_setusers h reset_resend hnone rfl
  refine ⟨hno, fun hash => ?_⟩
  rw [hwords, fresh_passwords, or_iff_right (Finset.notMem_empty _)]
  constructor
  · intro hmem
    rcases mem_resend hmem with hrule | ⟨hno, -⟩ | ⟨-, other, hother, hrule⟩ | ⟨col, hcol, -⟩
    · cases enabled <;> cases hrule
    · cases hno
    · rw [(List.cons.inj hrule).2]
      exact hother
    · rw [columnOf_head (.inl rfl) rfl] at hcol
      cases hcol
  · intro hmem
    simp [resend, hmem]

/-- A user that needs no password is sent as one. -/
theorem noPassword_resend {enabled : Bool} {hashes : List Text}
    (h : setusers (fresh s) (resend enabled true hashes rules) = some v) :
    v.noPassword = true ∧ v.passwords = ∅ := by
  refine noPassword_of_setusers h reset_resend (fun rule hrule hhead => ?_) rfl (.inl ?_)
  · rcases mem_resend hrule with hrule | ⟨-, hrule⟩ | ⟨hno, -⟩ | ⟨col, hcol, -⟩
    · rw [hrule] at hhead
      cases enabled <;> cases hhead
    · rw [hrule] at hhead
      cases hhead
    · cases hno
    · rw [columnOf_head (.inl rfl) hhead] at hcol
      cases hcol
  · simp [resend]

/-- What a save that changes nothing says of the line's name and of its rules. -/
theorem noBlank_of_unchanged (hs : s.Documented) (h : Printed u rules selectors)
    {listing : List Text} (hsaves : SavesUnchanged listing u name rules selectors) :
    (Words.IsField isSpace name ∧ trim name = name) ∧
      ∀ rule ∈ rules, ∀ col, columnOf rule = some col → NoBlank rule := by
  obtain ⟨user, sent, hread, hsave, hset⟩ := hsaves
  obtain ⟨⟨rest, rfl, hrest⟩, hname, hne⟩ := sent_of_saveAclUser hread hsave
  rw [setusers_reset] at hset
  -- what is sent has no blank, so that the user has none
  have hperm := blank_of_setusers hs hset hrest hs.none
  have hblanks : ∀ rule ∈ rules, ∀ col, columnOf rule = some col → NoBlank rule := by
    intro rule hrule col hcol
    by_contra hblank
    exact hperm col (h.inForce rule hrule col hcol hblank)
  -- the name that is saved is one that the driver reads whole
  obtain ⟨commands, -, hdrawn⟩ := drawnFrom_parseAclUser hread
  have hletters : ∀ c ∈ name, isSpace c = false := by
    intro c hc
    rw [hname] at hc
    exact hdrawn.name.2 c (Words.mem_of_mem_trim (Words.mem_of_mem_trim hc))
  have hfield : Words.IsField isSpace name := ⟨hne, hletters⟩
  obtain ⟨count, taken, hparse⟩ := parseAclUser_lineOf hfield (h.isField hblanks) h.opens h.selector
  have huser : user.name = name := by
    rw [hread, Option.some.injEq] at hparse
    rw [hparse]
    rfl
  rw [huser] at hname
  have htrimmed : trimSpace (trim name) = trim name :=
    Words.trim_eq_self fun c hc => hletters c (Words.mem_of_mem_trim hc)
  rw [htrimmed] at hname
  exact ⟨⟨hfield, hname.symm⟩, hblanks⟩

/-- What a save that changes nothing has sent. -/
theorem resend_of_unchanged (hs : s.Documented) (h : Printed u rules selectors)
    {listing : List Text} (hsaves : SavesUnchanged listing u name rules selectors) :
    ∃ hashes,
      setusers (fresh s) (resend (rules.foldl switch false)
        (rules.any fun rule => rule = "nopass".toList) hashes rules) = some u ∧
      (Listed listing (lineOf name rules selectors) → "nopass".toList ∉ rules →
        hashes = passwordHashesOf (lineOf name rules selectors)) := by
  obtain ⟨⟨hfield, htrim⟩, hblanks⟩ := noBlank_of_unchanged hs h hsaves
  obtain ⟨user, sent, hread, hsave, hset⟩ := hsaves
  obtain ⟨user', hashes, hread', hsent, hhashes⟩ := saveAclUser_readBack listing hfield htrim
    (h.isField hblanks) h.opens h.selector hblanks
  rw [hread, Option.some.injEq] at hread'
  rw [← hread', hsave, Except.ok.injEq, Prod.mk.injEq] at hsent
  rw [hsent.2, setusers_reset] at hset
  exact ⟨hashes, hset, hhashes⟩

/-- No selector outlives a save. -/
theorem selectors_of_unchanged (hs : s.Documented) (h : Printed u rules selectors)
    {listing : List Text} (hsaves : SavesUnchanged listing u name rules selectors) :
    selectors = [] := by
  obtain ⟨hashes, hset, -⟩ := resend_of_unchanged hs h hsaves
  have hread := selectors_of_setusers hset reset_resend
  rw [h.selectors_eq, List.filter_eq_nil_iff.mpr] at hread
  · exact hread
  · intro rule hrule
    simpa using (resend_known hrule).2.2.2

/-- **Saving an unedited user changes nothing** exactly where its line survives. -/
theorem saves_unchanged_iff (hs : s.Documented) (h : Printed u rules selectors)
    {listing : List Text} (hlisted : Listed listing (lineOf name rules selectors)) :
    SavesUnchanged listing u name rules selectors ↔ Survives name rules selectors := by
  have hreset : "reset".toList ∉ rules := fun hmem => h.reset (List.mem_append_left _ hmem)
  constructor
  · intro hsaves
    obtain ⟨⟨hfield, htrim⟩, hblanks⟩ := noBlank_of_unchanged hs h hsaves
    obtain ⟨hashes, hset, hhashes⟩ := resend_of_unchanged hs h hsaves
    have hselectors := selectors_of_unchanged hs h hsaves
    refine ⟨hselectors, fun hskip => ?_, ⟨hfield, htrim⟩, fun hhead => ?_, hblanks⟩
    · have hsanitized := skip_of_setusers_not hset reset_resend
        (fun hmem => (resend_known hmem).2.2.1 rfl) rfl
      have hsanitize : "sanitize-payload".toList ∉ rules ++ selectors := by
        rw [h.mem_rules (by decide)]
        exact h.sanitize hskip
      rw [skip_of_setusers h.read h.reset hsanitize (.inl (List.mem_append_left _ hskip))]
        at hsanitized
      cases hsanitized
    · by_cases hnopass : "nopass".toList ∈ rules
      · exact .inl hnopass
      · -- the name is sent as a password, and the user has no other than its own
        subst hselectors
        rw [any_nopass_of_not_mem hnopass] at hset
        obtain ⟨-, hsentwords⟩ := passwords_resend hset hnopass
        obtain ⟨-, hreadwords⟩ := passwords_of_setusers h.read h.reset
          (fun hmem => hnopass ((h.mem_rules (by decide)).mp hmem)) rfl
        have hname : '#' :: name.drop 1 = name := (drop_of_head hhead).mp rfl
        have hmem : name.drop 1 ∈ u.passwords := by
          rw [hsentwords, hhashes hlisted hnopass, mem_passwordHashesOf hfield (h.isField hblanks)]
          exact .inl hname
        rw [hreadwords, List.append_nil, hname] at hmem
        exact .inr (hmem.resolve_left (Finset.notMem_empty _))
  · rintro ⟨rfl, hskip, ⟨hfield, htrim⟩, hhash, hblanks⟩
    have hrules := h.isField hblanks
    obtain ⟨user, hashes, hread, hsent, hhashes⟩ := saveAclUser_readBack listing hfield htrim
      hrules h.opens h.selector hblanks
    have hread' := h.read
    rw [List.append_nil] at hread'
    have hcolumns : ∀ col, ∃ p, foldRules s col ((fresh s).perm col)
        (column col (resend (rules.foldl switch false)
          (rules.any fun rule => rule = "nopass".toList) hashes rules)) = some p := by
      intro col
      rw [column_resend]
      exact ⟨_, perm_of_setusers hread' hreset col⟩
    obtain ⟨v, hv⟩ := exists_setusers (fun rule hrule => (resend_known hrule).1) reset_resend hcolumns
    have hpasswords : v.noPassword = u.noPassword ∧ v.passwords = u.passwords := by
      by_cases hnopass : "nopass".toList ∈ rules
      · rw [any_nopass_of_mem hnopass] at hv
        obtain ⟨hno, hnone⟩ := noPassword_resend hv
        obtain ⟨hno', hnone'⟩ := noPassword_of_setusers hread' hreset (h.noPassword hnopass) rfl
          (.inl hnopass)
        exact ⟨hno.trans hno'.symm, hnone.trans hnone'.symm⟩
      · rw [any_nopass_of_not_mem hnopass] at hv
        obtain ⟨hno, hsentwords⟩ := passwords_resend hv hnopass
        obtain ⟨hno', hreadwords⟩ := passwords_of_setusers hread' hreset hnopass rfl
        refine ⟨hno.trans hno'.symm, Finset.ext fun hash => ?_⟩
        rw [hsentwords, hreadwords, hhashes hlisted hnopass, mem_passwordHashesOf hfield hrules,
          fresh_passwords, or_iff_right (Finset.notMem_empty _), or_iff_right_iff_imp]
        intro hname
        have hhead : name.head? = some '#' := by
          rw [← hname]
          rfl
        rw [hname]
        exact (hhash hhead).resolve_left hnopass
    have hsame : v = u := by
      ext1
      · rw [enabled_of_setusers hv reset_resend, switch_resend, enabled_of_setusers hread' hreset]
        rfl
      · exact hpasswords.1
      · rw [skip_of_setusers_not hv reset_resend (fun hmem => (resend_known hmem).2.2.1 rfl) rfl,
          skip_of_setusers_not hread' hreset hskip rfl]
      · exact hpasswords.2
      · funext col
        have hcol := perm_of_setusers hv reset_resend col
        rw [column_resend, perm_of_setusers hread' hreset col] at hcol
        exact (Option.some.inj hcol).symm
      · rw [h.selectors_eq, selectors_of_setusers hv reset_resend]
        rw [List.filter_eq_nil_iff.mpr]
        · rfl
        · intro rule hrule
          simpa using (resend_known hrule).2.2.2
    exact ⟨user, _, hread, hsent, by rw [setusers_reset, hv, hsame]⟩

end Unedited

/-! ## A server -/

/-- A server that keeps the rules of a column as they were given. -/
def plainServer : Server where
  Perm := List Text
  none _ := []
  rule _ kept rule := some (if rule = "resetchannels".toList then [] else kept ++ [rule])
  blank kept := ∃ rule ∈ kept, ¬ NoBlank rule

theorem plainServer_documented : plainServer.Documented := by
  refine ⟨fun col hblank => ?_, fun {col p rule p'} hrule hword hp hblank => ?_⟩
  · obtain ⟨rule, hrule, -⟩ := hblank
    cases hrule
  · cases hrule
    obtain ⟨other, hother, hblank⟩ := hblank
    split at hother
    · cases hother
    · rcases List.mem_append.mp hother with hold | hnew
      · exact hp ⟨other, hold, hblank⟩
      · rw [List.mem_singleton.mp hnew] at hblank
        exact hblank hword

/-- The rules of an application that reads. -/
def appRules : List Text :=
  ["on", "sanitize-payload", "#a1b2", "~app:*", "%R~cache:*", "resetchannels", "&events", "-@all",
    "+@read"].map String.toList

/-- Its user, with what its selectors come to. -/
def appUser (selectors : List Text) : User plainServer :=
  (setusers (fresh plainServer) (appRules ++ selectors)).getD (fresh plainServer)

theorem appRules_plain : (∀ rule ∈ appRules, rule ≠ [] ∧ rule ≠ "reset".toList ∧
    rule.head? ≠ some '(') ∧ "nopass".toList ∉ appRules ∧
    "skip-sanitize-payload".toList ∉ appRules ∧ ∀ rule ∈ appRules, NoBlank rule := by
  decide +kernel

theorem printed_app {selectors : List Text} (hselectors : ∀ rule ∈ selectors, rule.head? = some '(')
    (hread : setusers (fresh plainServer) (appRules ++ selectors) = some (appUser selectors)) :
    Printed (appUser selectors) appRules selectors := by
  obtain ⟨hword, hnopass, hskip, hblank⟩ := appRules_plain
  exact ⟨hread, hword, hselectors, fun h => absurd h hnopass, fun h => absurd h hskip,
    fun rule hrule _ => hblank rule hrule, fun rule hrule _ _ h => absurd (hblank rule hrule) h⟩

theorem listed_self (line : Text) : Listed [line] line := by
  refine ⟨List.mem_singleton_self _, fun other hother user user' hread hread' _ => ?_⟩
  rw [List.mem_singleton.mp hother, hread] at hread'
  exact (Option.some.inj hread').symm

/-- A user with read and write patterns, one channel and two rules for commands is saved as it was. -/
theorem saves_unchanged_app :
    SavesUnchanged [lineOf "app".toList appRules []] (appUser []) "app".toList appRules [] := by
  obtain ⟨-, hnopass, hskip, hblank⟩ := appRules_plain
  refine (saves_unchanged_iff plainServer_documented (printed_app (by simp) rfl)
    (listed_self _)).mpr
      ⟨rfl, hskip, ⟨Words.isField_of_all (by decide) (by decide), by decide⟩, ?_, ?_⟩
  · intro hhead
    cases hhead
  · exact fun rule hrule _ _ => hblank rule hrule

/-- A selector that lets the user read and write what another shares. -/
def sharedSelector : Text := "(~shared:* resetchannels -@all +get +set)".toList

/-- A user with a selector is saved without it. -/
theorem selector_revoked :
    ¬ (∀ (s : Server) (u : User s) (name : Text) (rules selectors listing : List Text),
        s.Documented → Printed u rules selectors → Listed listing (lineOf name rules selectors) →
        SavesUnchanged listing u name rules selectors) ∧
      (parseAclUser (lineOf "app".toList appRules [sharedSelector])).map (fun user =>
        saveAclUser [lineOf "app".toList appRules [sharedSelector]] (toDraft (toForm user))) =
        some (.ok ("app".toList,
          ["reset", "on", "#a1b2", "~app:*", "%R~cache:*", "resetchannels", "&events", "-@all",
            "+@read"].map String.toList)) := by
  refine ⟨fun h => ?_, by decide +kernel⟩
  have hprinted : Printed (appUser [sharedSelector]) appRules [sharedSelector] :=
    printed_app (fun rule hrule => by rw [List.mem_singleton.mp hrule]; rfl) rfl
  have hsaves := h plainServer (appUser [sharedSelector]) "app".toList appRules [sharedSelector] _
    plainServer_documented hprinted (listed_self _)
  cases selectors_of_unchanged plainServer_documented hprinted hsaves

end MqStudio.Driver.Redis.Acl
