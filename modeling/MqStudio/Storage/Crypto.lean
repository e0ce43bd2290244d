import Mathlib.Algebra.Group.Nat.Defs
import MqStudio.Storage.MasterKey

/-!
# Encrypted Fields

`internal/crypto`: what the services take for granted of a cipher, made of its parts. A field's key
is derived from the master key and the field's name; what is stored is the marker and, in Base64,
the nonce with the sealed text behind it. Installations from before HKDF derived the key otherwise,
and what they stored is still opened.

AES-GCM, HKDF and SHA-256 are parameters, with the one law of the first that the code rests on.
With a key of 32 bytes neither the derivation nor `openGCM` fails.

## Main definitions

- `Primitives`: the parameters.
- `encrypt`, `decrypt`: the exported functions, under the key the process holds, if it holds one.
- `cipherOf`: the cipher the services are modelled over.

## Main results

- `decrypt_encrypt`, `decrypt_legacy`: round trips.
- `opened_by_any_process`: what one process of an installation sealed, every other one opens.
- `encrypt_cipherOf`, `decrypt_cipherOf`: the services' cipher is this code.
-/

namespace MqStudio.Storage.Crypto

open MqStudio.Lib
open MqStudio.Storage.MasterKey (Key)

/-! ## Bytes -/

/-- `[]byte(s)` -/
def bytesOf (s : String) : List UInt8 := s.toByteArray.data.toList

/-- `string(b)`, where the bytes are a text. -/
def textOf (bytes : List UInt8) : Option String := String.fromUTF8? ⟨bytes.toArray⟩

theorem textOf_bytesOf (s : String) : textOf (bytesOf s) = some s := by
  have hvalid : ByteArray.IsValidUTF8 ⟨(bytesOf s).toArray⟩ := by
    simpa [bytesOf] using s.isValidUTF8
  unfold textOf String.fromUTF8?
  rw [dif_pos hvalid]
  simp [bytesOf, String.fromUTF8]

theorem textOf_eq_some_iff {bytes : List UInt8} {s : String} :
    textOf bytes = some s ↔ bytes = bytesOf s := by
  refine ⟨fun h => ?_, fun h => h ▸ textOf_bytesOf s⟩
  unfold textOf String.fromUTF8? at h
  split at h
  · cases h
    simp [bytesOf, String.fromUTF8]
  · cases h

/-- The bytes of a nonce, `gcm.NonceSize()` of them. -/
def nonceBytes (nonce : Nonce) : List UInt8 :=
  (List.range 12).map fun i => UInt8.ofNat (nonce.toNat / 256 ^ (11 - i))

@[simp] theorem length_nonceBytes (nonce : Nonce) : (nonceBytes nonce).length = 12 := by
  simp [nonceBytes]

/-! ## Sealing and opening -/

/-- The standard library's part. -/
structure Primitives where
  /-- `hkdf.Key(sha256.New, masterKey, nil, info, 32)` -/
  hkdf : Key → (info : String) → Key
  sha256 : List UInt8 → Key
  /-- `Seal` of `cipher.NewGCM`, without its destination. -/
  gcmSeal : Key → (nonce plaintext : List UInt8) → List UInt8
  /-- `Open`. -/
  gcmOpen : Key → (nonce sealed : List UInt8) → Option (List UInt8)
  gcmOpen_seal : ∀ key nonce plaintext, nonce.length = 12 →
    gcmOpen key nonce (gcmSeal key nonce plaintext) = some plaintext

/-- Why a field could not be encrypted or decrypted. -/
inductive FieldError where
  /-- "encryption key is not initialized" -/
  | notInitialized
  /-- "failed to generate nonce" -/
  | nonce
  /-- "failed to decode ciphertext" -/
  | decode
  /-- "ciphertext is too short" -/
  | tooShort
  /-- "decryption failed" -/
  | failed
  deriving DecidableEq

/-- `hkdfInfoPrefix` -/
def hkdfInfoPrefix : String := "mq-studio/field/"

variable (P : Primitives)

/-- `deriveFieldKey` -/
def deriveFieldKey (masterKey : Key) (field : String) : Key :=
  P.hkdf masterKey (hkdfInfoPrefix ++ field)

/-- `deriveFieldKeyLegacy` -/
def deriveFieldKeyLegacy (masterKey : Key) (field : String) : Key :=
  P.sha256 (masterKey.val ++ bytesOf field)

/-- What is stored of a text sealed under a key: `Seal` appends to the nonce. -/
def sealWithKey (key : Key) (nonce : Nonce) (plaintext : String) : String :=
  String.ofList (Base64.encode (nonceBytes nonce ++ P.gcmSeal key (nonceBytes nonce) (bytesOf plaintext)))

/-- `Encrypt` -/
def encrypt (globalKey : Option Key) (nonce : Option Nonce) (plaintext field : String) :
    Except FieldError String :=
  if plaintext = "" then .ok ""
  else
    match globalKey, nonce with
    | none, _ => .error .notInitialized
    | some _, none => .error .nonce
    | some key, some nonce =>
      .ok (encryptedPrefix ++ sealWithKey P (deriveFieldKey P key field) nonce plaintext)

/-- `decryptWithKey` -/
def decryptWithKey (data : List UInt8) (key : Key) : Except FieldError (List UInt8) :=
  if data.length < 12 then .error .tooShort
  else
    match P.gcmOpen key (data.take 12) (data.drop 12) with
    | none => .error .failed
    | some plaintext => .ok plaintext

/-- What follows the marker. -/
def bodyOf (ciphertext : String) : List Char := ciphertext.toList.drop encryptedPrefix.length

/-- `Decrypt`, as the bytes it returns. -/
def decrypt (globalKey : Option Key) (ciphertext field : String) : Except FieldError (List UInt8) :=
  if ciphertext = "" then .ok []
  else if !isEncrypted ciphertext then .ok (bytesOf ciphertext)
  else
    match globalKey with
    | none => .error .notInitialized
    | some master =>
      match Base64.decode (bodyOf ciphertext) with
      | none => .error .decode
      | some data =>
        match decryptWithKey P data (deriveFieldKey P master field) with
        | .ok plaintext => .ok plaintext
        | .error _ => decryptWithKey P data (deriveFieldKeyLegacy P master field)

variable {P}

/-- What was sealed under a key is behind its nonce. -/
theorem decryptWithKey_sealed (key key' : Key) (nonce : Nonce) (plaintext : String) :
    decryptWithKey P (nonceBytes nonce ++ P.gcmSeal key (nonceBytes nonce) (bytesOf plaintext)) key' =
      match P.gcmOpen key' (nonceBytes nonce) (P.gcmSeal key (nonceBytes nonce) (bytesOf plaintext)) with
      | none => .error .failed
      | some plaintext => .ok plaintext := by
  have hlong : ¬ (nonceBytes nonce ++
      P.gcmSeal key (nonceBytes nonce) (bytesOf plaintext)).length < 12 := by
    rw [List.length_append, length_nonceBytes]
    omega
  rw [decryptWithKey, if_neg hlong, List.take_left' (length_nonceBytes nonce),
    List.drop_left' (length_nonceBytes nonce)]

theorem decryptWithKey_own (key : Key) (nonce : Nonce) (plaintext : String) :
    decryptWithKey P (nonceBytes nonce ++ P.gcmSeal key (nonceBytes nonce) (bytesOf plaintext)) key =
      .ok (bytesOf plaintext) := by
  rw [decryptWithKey_sealed, P.gcmOpen_seal _ _ _ (length_nonceBytes nonce)]

theorem bodyOf_prefixed (body : String) : bodyOf (encryptedPrefix ++ body) = body.toList := by
  rw [bodyOf, String.toList_append, ← String.length_toList, List.drop_left]

theorem prefixed_ne_empty (body : String) : encryptedPrefix ++ body ≠ "" := by
  intro hblank
  have hlength := congrArg String.length hblank
  simp [encryptedPrefix, String.length_append] at hlength

/-- What `Decrypt` makes of a text that was sealed under some key. -/
theorem decrypt_sealed (master key : Key) (nonce : Nonce) (plaintext field : String) :
    decrypt P (some master) (encryptedPrefix ++ sealWithKey P key nonce plaintext) field =
      match decryptWithKey P (nonceBytes nonce ++ P.gcmSeal key (nonceBytes nonce) (bytesOf plaintext))
        (deriveFieldKey P master field) with
      | .ok plaintext => .ok plaintext
      | .error _ => decryptWithKey P
          (nonceBytes nonce ++ P.gcmSeal key (nonceBytes nonce) (bytesOf plaintext))
          (deriveFieldKeyLegacy P master field) := by
  rw [decrypt, if_neg (prefixed_ne_empty _), Cipher.isEncrypted_prefixed, Bool.not_true,
    if_neg Bool.false_ne_true, bodyOf_prefixed, sealWithKey, String.toList_ofList,
    Base64.decode_encode]

/-- **A field decrypts to what was encrypted for it**, whatever the text. -/
theorem decrypt_encrypt {key : Key} {nonce : Option Nonce} {plaintext field stored : String}
    (h : encrypt P (some key) nonce plaintext field = .ok stored) :
    decrypt P (some key) stored field = .ok (bytesOf plaintext) := by
  unfold encrypt at h
  split at h
  · rename_i hblank
    cases h
    subst hblank
    rfl
  · cases nonce with
    | none => cases h
    | some nonce =>
      cases h
      rw [decrypt_sealed, decryptWithKey_own]

/-- **What an older version sealed is still opened**, unless the new key opens it as well. -/
theorem decrypt_legacy (master : Key) (nonce : Nonce) (plaintext field : String)
    (hforeign : P.gcmOpen (deriveFieldKey P master field) (nonceBytes nonce)
      (P.gcmSeal (deriveFieldKeyLegacy P master field) (nonceBytes nonce) (bytesOf plaintext)) = none) :
    decrypt P (some master)
      (encryptedPrefix ++ sealWithKey P (deriveFieldKeyLegacy P master field) nonce plaintext)
      field = .ok (bytesOf plaintext) := by
  rw [decrypt_sealed, decryptWithKey_sealed, hforeign, decryptWithKey_own]

/-! ## The cipher of the services -/

variable (P)

/-- The cipher the services are modelled over, for a process that holds a key. -/
def cipherOf (key : Key) : Cipher where
  sealField field nonce plaintext := sealWithKey P (deriveFieldKey P key field) nonce plaintext
  openSealed field text :=
    match decrypt P (some key) (encryptedPrefix ++ text) field with
    | .error _ => none
    | .ok plaintext => textOf plaintext
  open_seal field nonce plaintext := by
    rw [decrypt_sealed, decryptWithKey_own]
    exact textOf_bytesOf plaintext

variable {P}

/-- A text with the marker is the marker and its body. -/
theorem prefixed_bodyOf {s : String} (h : isEncrypted s = true) :
    encryptedPrefix ++ String.ofList (bodyOf s) = s := by
  obtain ⟨body, hbody⟩ := List.isPrefixOf_iff_prefix.mp h
  apply String.toList_injective
  rw [String.toList_append, String.toList_ofList, bodyOf, ← String.length_toList, ← hbody,
    List.drop_left]

/-- **Sealing for the services is `Encrypt`**, once the key is initialised. -/
theorem encrypt_cipherOf (key : Key) (nonce : Option Nonce) (plaintext field : String) :
    (cipherOf P key).encrypt nonce plaintext field =
      (encrypt P (some key) nonce plaintext field).mapError fun _ => CryptoError.nonce := by
  unfold Cipher.encrypt encrypt
  split
  · rfl
  · cases nonce <;> rfl

/-- **Opening for the services is `Decrypt`**, for everything that is a text. -/
theorem decrypt_cipherOf (key : Key) (stored field plaintext : String) :
    (cipherOf P key).decrypt stored field = .ok plaintext ↔
      decrypt P (some key) stored field = .ok (bytesOf plaintext) := by
  have hbytes : ∀ s : String, bytesOf s = bytesOf plaintext ↔ s = plaintext := fun s => by
    rw [← textOf_eq_some_iff, textOf_bytesOf, Option.some.injEq]
  by_cases hblank : stored = ""
  · subst hblank
    have hempty : bytesOf "" = [] := rfl
    simp only [Cipher.decrypt_empty, decrypt, if_true, Except.ok.injEq]
    rw [← hempty, hbytes]
  · cases hmark : isEncrypted stored with
    | false =>
      rw [Cipher.decrypt, decrypt, if_neg hblank, if_neg hblank, hmark]
      simp only [Bool.not_false, if_true, Except.ok.injEq, hbytes]
    | true =>
      have hbody := prefixed_bodyOf hmark
      rw [Cipher.decrypt, if_neg hblank, hmark, Bool.not_true, if_neg Bool.false_ne_true]
      simp only [cipherOf]
      rw [← bodyOf, hbody]
      cases hdecrypt : decrypt P (some key) stored field with
      | error e => simp
      | ok bytes =>
        dsimp only
        rw [Except.ok.injEq, ← textOf_eq_some_iff]
        cases textOf bytes with
        | none => simp
        | some text => simp

/-- **The services' cipher is this code**: whatever is proved of the services over every cipher is
    proved of them over this one, for every master key. -/
theorem services_use_crypto (P : Primitives) (key : Key) :
    (∀ nonce plaintext field, (cipherOf P key).encrypt nonce plaintext field =
      (encrypt P (some key) nonce plaintext field).mapError fun _ => CryptoError.nonce) ∧
    ∀ stored field plaintext, (cipherOf P key).decrypt stored field = .ok plaintext ↔
      decrypt P (some key) stored field = .ok (bytesOf plaintext) :=
  ⟨encrypt_cipherOf key, decrypt_cipherOf key⟩

/-! ## Processes -/

/-- **What one process of an installation sealed, every other one opens**, in every interleaving of
    first runs under which their keys agree. -/
theorem opened_by_any_process {initial : Disk Unit (List Char)}
    {s : Threads MasterKey.Shared MasterKey.Position}
    (hs : (MasterKey.machine initial).Reachable
      (MasterKey.Undisturbed.OkOutages MasterKey.Safely) s)
    {k₁ k₂ : Key} (h₁ : k₁ ∈ s.shared.keys) (h₂ : k₂ ∈ s.shared.keys) {nonce : Option Nonce}
    {plaintext field stored : String}
    (hencrypt : encrypt P (some k₁) nonce plaintext field = .ok stored) :
    decrypt P (some k₂) stored field = .ok (bytesOf plaintext) := by
  rw [← (MasterKey.one_key hs).1 k₁ h₁ k₂ h₂]
  exact decrypt_encrypt hencrypt

/-! ## A tagged cipher -/

/-- Primitives to run the model on: what is sealed carries its key in front. -/
def tagged : Primitives where
  hkdf key _ := key
  sha256 _ := ⟨List.replicate 32 9, rfl⟩
  gcmSeal key _ plaintext := key.val ++ plaintext
  gcmOpen key _ sealed := if sealed.take 32 = key.val then some (sealed.drop 32) else none
  gcmOpen_seal key _ plaintext _ := by
    rw [List.take_left' key.property, List.drop_left' key.property, if_pos rfl]

/-- The first process of a first run seals a password, the third one opens it. -/
theorem opened_by_any_process_firstRun :
    ∃ stored, encrypt tagged (some MasterKey.someKey) (some 5) "guest" "password" = .ok stored ∧
      decrypt tagged (some MasterKey.someKey) stored "password" = .ok (bytesOf "guest") := by
  have hs : (MasterKey.machine MasterKey.noFile).Reachable
      (MasterKey.Undisturbed.OkOutages MasterKey.Safely)
      ((MasterKey.machine MasterKey.noFile).endOf ⟨⟨MasterKey.noFile, []⟩, ∅⟩ MasterKey.firstRun) :=
    Machine.Reachable.endOf (.start ⟨⟨rfl, MasterKey.noFile_settled⟩, rfl⟩) (by decide +kernel)
  obtain ⟨stored, hstored⟩ : ∃ stored,
      encrypt tagged (some MasterKey.someKey) (some 5) "guest" "password" = .ok stored := ⟨_, rfl⟩
  exact ⟨stored, hstored,
    opened_by_any_process hs (by decide +kernel) (by decide +kernel) hstored⟩

/-- A password that an older version sealed is opened. -/
theorem decrypt_legacy_guest :
    decrypt tagged (some MasterKey.someKey)
      (encryptedPrefix ++ sealWithKey tagged
        (deriveFieldKeyLegacy tagged MasterKey.someKey "password") 5 "guest")
      "password" = .ok (bytesOf "guest") :=
  decrypt_legacy MasterKey.someKey 5 "guest" "password" (by decide +kernel)

end MqStudio.Storage.Crypto
