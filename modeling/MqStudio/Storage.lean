import MqStudio.Lib.Words

/-!
# Stored Files and Encrypted Fields

What the services rest on below the profile model:

- **Documents**: the bytes of a JSON file as `json.Unmarshal` sees them. Either the text does
  not parse, or it parses to a value; several spellings of one value are different bytes.
- **Text**: `strings.TrimSpace` and `strings.Fields` on strings.
- **Field encryption** (`internal/crypto`): values carry the marker `ENC:` once encrypted,
  each field under a key of its own.

The master key is initialised before any service is assembled, so `Encrypt` fails only when
no nonce can be drawn and `Decrypt` only on text its key did not seal.
-/

namespace MqStudio.Storage

open MqStudio.Lib

/-! ## Documents -/

/-- A file as a JSON decoder reads it. `spelling` tells apart files that decode alike. -/
inductive Document (α : Type) where
  | malformed (text : String)
  | encoded (spelling : String) (value : α)
  deriving DecidableEq

namespace Document

variable {α : Type}

/-- What `json.MarshalIndent` writes for a value. -/
def marshal (value : α) : Document α := .encoded "" value

/-- `json.Unmarshal`: the value, when the text is JSON of the right shape. -/
def unmarshal : Document α → Option α
  | .malformed _ => none
  | .encoded _ value => some value

@[simp] theorem unmarshal_marshal (value : α) : (marshal value).unmarshal = some value := rfl

end Document

/-! ## Text -/

/-- `unicode.IsSpace`. -/
def isSpace (c : Char) : Bool :=
  c = ' ' || c = '\t' || c = '\n' || c = '\r' || c.val = 0x0B || c.val = 0x0C ||
    c.val = 0x85 || c.val = 0xA0 || c.val = 0x1680 ||
    (0x2000 ≤ c.val && c.val ≤ 0x200A) || c.val = 0x2028 || c.val = 0x2029 ||
    c.val = 0x202F || c.val = 0x205F || c.val = 0x3000

/-- `strings.TrimSpace`. -/
def trimSpace (s : String) : String :=
  String.ofList (Words.trim isSpace s.toList)

/-- `strings.Fields` joined by single spaces. -/
def collapseSpace (s : String) : String :=
  String.ofList (Words.collapse isSpace ' ' s.toList)

@[simp] theorem trimSpace_trimSpace (s : String) : trimSpace (trimSpace s) = trimSpace s := by
  simp [trimSpace, Words.trim_trim]

@[simp] theorem trimSpace_empty : trimSpace "" = "" := by
  simp [trimSpace]

@[simp] theorem collapseSpace_collapseSpace (s : String) :
    collapseSpace (collapseSpace s) = collapseSpace s := by
  simp [collapseSpace, Words.collapse_collapse isSpace ' ' (by decide)]

/-! ## Field encryption -/

/-- Twelve random bytes. -/
abbrev Nonce := BitVec 96

/-- AES-GCM under per-field keys derived from the master key. `openSealed` is both
    derivations `Decrypt` tries; a field opens what was sealed for it. -/
structure Cipher where
  sealField : (field : String) → Nonce → (plaintext : String) → String
  openSealed : (field : String) → (sealedText : String) → Option String
  open_seal : ∀ field nonce plaintext,
    openSealed field (sealField field nonce plaintext) = some plaintext

/-- Why a credential could not be encrypted or decrypted. -/
inductive CryptoError where
  /-- "failed to generate nonce" -/
  | nonce
  /-- "failed to decode ciphertext" or "decryption failed" -/
  | ciphertext
  deriving DecidableEq

/-- The marker of encrypted text. -/
def encryptedPrefix : String := "ENC:"

/-- `IsEncrypted`: the text starts with the marker. -/
def isEncrypted (s : String) : Bool :=
  encryptedPrefix.toList.isPrefixOf s.toList

namespace Cipher

/-- `Encrypt`. The empty string stays empty; anything else is sealed under a fresh nonce. -/
def encrypt (c : Cipher) (nonce : Option Nonce) (plaintext field : String) :
    Except CryptoError String :=
  if plaintext = "" then .ok ""
  else
    match nonce with
    | none => .error .nonce
    | some nonce => .ok (encryptedPrefix ++ c.sealField field nonce plaintext)

/-- `Decrypt`. Text without the marker is legacy plaintext and comes back as it is. -/
def decrypt (c : Cipher) (ciphertext field : String) : Except CryptoError String :=
  if ciphertext = "" then .ok ""
  else if !isEncrypted ciphertext then .ok ciphertext
  else
    match c.openSealed field (String.ofList (ciphertext.toList.drop encryptedPrefix.length)) with
    | none => .error .ciphertext
    | some plaintext => .ok plaintext

variable (c : Cipher)

@[simp] theorem encrypt_empty (nonce : Option Nonce) (field : String) :
    c.encrypt nonce "" field = .ok "" := rfl

@[simp] theorem decrypt_empty (field : String) : c.decrypt "" field = .ok "" := rfl

@[simp] theorem isEncrypted_prefixed (body : String) : isEncrypted (encryptedPrefix ++ body) = true := by
  simp [isEncrypted, String.toList_append]

/-- What encryption of a nonblank text produced carries the marker and is not blank. -/
theorem isEncrypted_encrypt {nonce : Option Nonce} {plaintext field stored : String}
    (hne : plaintext ≠ "") (h : c.encrypt nonce plaintext field = .ok stored) :
    isEncrypted stored = true ∧ stored ≠ "" := by
  unfold encrypt at h
  rw [if_neg hne] at h
  cases nonce with
  | none => cases h
  | some nonce =>
    cases h
    refine ⟨isEncrypted_prefixed _, fun hblank => ?_⟩
    have := congrArg String.length hblank
    simp [encryptedPrefix, String.length_append] at this

/-- **Field round trip**: a field decrypts to what was encrypted for it, whatever the text,
    including text that already looks like ciphertext. -/
theorem decrypt_encrypt {nonce : Option Nonce} {plaintext field stored : String}
    (h : c.encrypt nonce plaintext field = .ok stored) :
    c.decrypt stored field = .ok plaintext := by
  by_cases hne : plaintext = ""
  · subst hne
    simp only [encrypt_empty, Except.ok.injEq] at h
    rw [← h, decrypt_empty]
  · obtain ⟨hmark, hstored⟩ := c.isEncrypted_encrypt hne h
    unfold encrypt at h
    rw [if_neg hne] at h
    cases nonce with
    | none => cases h
    | some nonce =>
      cases h
      have hbody : (encryptedPrefix ++ c.sealField field nonce plaintext).toList.drop
          encryptedPrefix.length = (c.sealField field nonce plaintext).toList := by
        rw [String.toList_append, ← String.length_toList, List.drop_left]
      unfold decrypt
      rw [if_neg hstored, hmark, hbody, String.ofList_toList, c.open_seal]
      simp

end Cipher

/-- A cipher that seals by leaving the text as it is: enough to run the model on. -/
def plainCipher : Cipher where
  sealField _ _ plaintext := plaintext
  openSealed _ sealedText := some sealedText
  open_seal _ _ _ := rfl

end MqStudio.Storage
