import TorrentNode.Structs.Common

/-!
# Keys and signatures (`PrivateKey.cpp`, `BlockchainUtils.cpp`, `crypto.cpp`)

A key is read in one of two ways. As the 32 bytes of a secp256k1 key its public key is
the bare point, and its signatures are always the same. As a key that OpenSSL wrote, its
public key is what OpenSSL writes, and every signature draws a nonce of its own. The
check of a signed block reads public keys of the second kind only, and wants the address
as `get_address` spells it, where the constructor of the key takes capital letters too.
-/

namespace TorrentNode

/-! ## The libraries -/

/-- A letter in lower case. -/
def lowerCase (c : UInt8) : UInt8 := if 65 ≤ c ∧ c ≤ 90 then c + 32 else c

/--
What OpenSSL, secp256k1 and `toLower` compute. A public key comes out of secp256k1 as the
65 bytes of a point; a signature of OpenSSL depends on what its generator draws.
-/
structure SignatureScheme where
  SHA256 : Bytes → Vector UInt8 32
  RIPEMD160 : Bytes → Vector UInt8 20
  toLower : Blob → Blob
  secp256k1_ec_pubkey_create : (seckey : Bytes) → Option Blob
  secp256k1_ec_pubkey_parse : (pubkey : Blob) → Option Blob
  secp256k1_ecdsa_sign : (hash seckey : Bytes) → Option Blob
  CRYPTO_generate_public : (private_key : Blob) → Except Err Blob
  EVP_DigestSign : (random : Nat) → (private_key : Blob) → (data : Bytes) → Except Err Blob
  /-- `d2i_PUBKEY` reads the public key, and it is one of an elliptic curve. -/
  EVP_PKEY_get1_EC_KEY : (pubkey : Blob) → Bool
  ECDSA_do_verify : (sign pubkey data : Blob) → Bool

/--
What the libraries promise: OpenSSL reads the public keys it wrote, and those of
secp256k1 it does not; and a signature is one of the text that was signed.
-/
structure SignatureScheme.Lawful (scheme : SignatureScheme) : Prop where
  toLower : ∀ text, (scheme.toLower text).val = text.val.map lowerCase
  point : ∀ {seckey pubkey}, scheme.secp256k1_ec_pubkey_create seckey = some pubkey →
    scheme.EVP_PKEY_get1_EC_KEY pubkey = false
  written : ∀ {private_key pubkey}, scheme.CRYPTO_generate_public private_key = .ok pubkey →
    scheme.secp256k1_ec_pubkey_parse pubkey = none
  signed : ∀ {random private_key data sign pubkey}, scheme.CRYPTO_generate_public private_key = .ok pubkey →
    scheme.EVP_PKEY_get1_EC_KEY pubkey = true →
    scheme.EVP_DigestSign random private_key data = .ok sign →
    ∀ text : Blob, scheme.ECDSA_do_verify sign pubkey text = true ↔ text.val = data

theorem length_hexBytes : ∀ b : Bytes, (hexBytes b).length = 2 * b.length
  | [] => rfl
  | c :: b => by
      rw [hexBytes_cons, List.length_cons, List.length_cons, List.length_cons, length_hexBytes b]
      omega

theorem hexDigit_ne_brace : ∀ n < 16, (hexDigit n).toUInt8 ≠ 125 := by decide

theorem hexBytes_ne_brace : ∀ {b : Bytes}, ∀ c ∈ hexBytes b, c ≠ 125
  | [], c, h => by cases h
  | d :: b, c, h => by
      rw [hexBytes_cons, List.mem_cons, List.mem_cons] at h
      have hd := d.toNat_lt
      rcases h with rfl | rfl | h
      · exact hexDigit_ne_brace _ (by omega)
      · exact hexDigit_ne_brace _ (by omega)
      · exact hexBytes_ne_brace c h

namespace SignatureScheme

variable (scheme : SignatureScheme)

/-! ## Addresses -/

/-- The address of a point: a zero, the digest of the point and four bytes of a check sum. -/
def addressBytes (point : Bytes) : Bytes :=
  let wide_h := 0 :: (scheme.RIPEMD160 (scheme.SHA256 point).toList).toList
  wide_h ++ (scheme.SHA256 (scheme.SHA256 wide_h).toList).toList.take 4

theorem length_addressBytes (point : Bytes) : (scheme.addressBytes point).length = 25 := by
  simp [addressBytes]

/-- The text of an address. -/
def addressText (point : Bytes) : Blob :=
  ⟨ascii ['0', 'x'] ++ hexBytes (scheme.addressBytes point), by
    rw [List.length_append, length_hexBytes, length_addressBytes]; decide⟩

/-- `get_address(pubk)`: the first of the last 65 bytes is taken for a 4. -/
def get_address (bpubk : Blob) : Blob :=
  if bpubk.size < 65 then ⟨ascii "Invalid".toList, by decide⟩
  else scheme.addressText (4 :: bpubk.val.drop (bpubk.size - 64))

/-- `makeAddressFromSecpKey(pubkey)` -/
def makeAddressFromSecpKey (pubkey : Blob) : Except Err Blob :=
  match scheme.secp256k1_ec_pubkey_parse pubkey with
  | none => .error (.exception "Incorrect pubkey")
  | some pubkeyData => .ok (scheme.get_address pubkeyData)

/-- `"0x" + CRYPTO_generate_address(pubkey)`, which reads the last 65 bytes of the key. -/
def CRYPTO_generate_address (pubkey : Blob) : Except Err Blob :=
  if pubkey.size < 65 then .error .crash
  else .ok (scheme.addressText (pubkey.val.drop (pubkey.size - 65)))

/-! ## Signatures -/

/-- `crypto_sign_data`: the length of the text is held in an `int`. -/
def crypto_sign_data (random : Nat) (private_key data : Blob) : Except Err Blob :=
  let data_size := data.size % 2 ^ 32
  if data_size < 2 ^ 31 then scheme.EVP_DigestSign random private_key (data.val.take data_size)
  else .error .crash

/-- `crypto_check_sign_data`, which is `check_sign`. -/
def crypto_check_sign_data (sign pubkey data : Blob) : Bool :=
  scheme.EVP_PKEY_get1_EC_KEY pubkey && scheme.ECDSA_do_verify sign pubkey data

end SignatureScheme

/-! ## The key of a node -/

/-- `PrivateKey`: the key, its public key and its address, and how it signs. -/
structure PrivateKey (scheme : SignatureScheme) where
  privateKey : Blob
  pubk : Blob
  address : Blob
  isSecp : Bool
  deriving DecidableEq

namespace PrivateKey

variable {scheme : SignatureScheme}

/-- The bytes of the secp256k1 key, which `privateKey.data() + 7` points at. -/
def seckey (privateKey : Blob) : Bytes := (privateKey.val.drop 7).take 32

/-- The `try` block of the constructor. -/
def ofSecp (scheme : SignatureScheme) (privateKey address : Blob) :
    Except Err (PrivateKey scheme) :=
  if privateKey.size < 39 then .error .crash
  else
    match scheme.secp256k1_ec_pubkey_create (seckey privateKey) with
    | none => .error (.exception "Incorrect private key")
    | some pubk => do
      check (decide (scheme.get_address pubk = scheme.toLower address))
        "Incorrect private key or address"
      pure { privateKey, pubk, address, isSecp := true }

/-- The handler behind it. -/
def ofOpenSsl (scheme : SignatureScheme) (privateKey address : Blob) :
    Except Err (PrivateKey scheme) := do
  let pubk ← scheme.CRYPTO_generate_public privateKey
  let calculatedAddress ← scheme.CRYPTO_generate_address pubk
  check (decide (calculatedAddress = scheme.toLower address)) "Incorrect private key or address"
  pure { privateKey, pubk, address, isSecp := false }

/-- `PrivateKey(key, address)` -/
def new (scheme : SignatureScheme) (key address : Blob) : Except Err (PrivateKey scheme) := do
  check (decide (32 ≤ key.size)) "Incorrect private key"
  match ofSecp scheme key address with
  | .ok made => .ok made
  | .error (.exception _) => ofOpenSsl scheme key address
  | .error e => .error e

/-- `sign(data)` -/
def sign (key : PrivateKey scheme) (random : Nat) (data : Blob) : Except Err Blob :=
  if key.isSecp then
    match scheme.secp256k1_ecdsa_sign (scheme.SHA256 data.val).toList (seckey key.privateKey) with
    | none => .error (.exception "Dont create signature")
    | some result => .ok result
  else scheme.crypto_sign_data random key.privateKey data

/-- A key that the constructor made. -/
def Made (key : PrivateKey scheme) : Prop := ∃ text address, new scheme text address = .ok key

/--
A key whose signatures can be checked: of the second kind and of an elliptic curve, with
its address as `get_address` spells it.
-/
def Checkable (key : PrivateKey scheme) : Prop :=
  key.isSecp = false ∧ scheme.EVP_PKEY_get1_EC_KEY key.pubk = true ∧
    scheme.get_address key.pubk = key.address

/-- **The two ways a key is made.** -/
theorem Made.cases {key : PrivateKey scheme} (h : key.Made) :
    (key.isSecp = true ∧
        scheme.secp256k1_ec_pubkey_create (seckey key.privateKey) = some key.pubk ∧
        scheme.get_address key.pubk = scheme.toLower key.address) ∨
      (key.isSecp = false ∧ scheme.CRYPTO_generate_public key.privateKey = .ok key.pubk ∧
        scheme.CRYPTO_generate_address key.pubk = .ok (scheme.toLower key.address)) := by
  obtain ⟨text, address, h⟩ := h
  obtain ⟨-, h⟩ := check_bind_eq_ok.mp h
  have hsecp : ∀ {made}, ofSecp scheme text address = .ok made → made.isSecp = true ∧
      scheme.secp256k1_ec_pubkey_create (seckey made.privateKey) = some made.pubk ∧
      scheme.get_address made.pubk = scheme.toLower made.address := by
    intro made hmade
    unfold ofSecp at hmade
    split at hmade
    · cases hmade
    · split at hmade
      · cases hmade
      · rename_i pubk hpubk
        obtain ⟨heq, hmade⟩ := check_bind_eq_ok.mp hmade
        cases hmade
        exact ⟨rfl, hpubk, of_decide_eq_true heq⟩
  split at h
  · rename_i made hmade
    cases h
    exact Or.inl (hsecp hmade)
  · right
    obtain ⟨pubk, hpubk, h⟩ := bind_eq_ok.mp h
    obtain ⟨calculatedAddress, hcalculated, h⟩ := bind_eq_ok.mp h
    obtain ⟨heq, h⟩ := check_bind_eq_ok.mp h
    cases h
    exact ⟨rfl, hpubk, hcalculated.trans (congrArg Except.ok (of_decide_eq_true heq))⟩
  · cases h

/-- The address of a key is hexadecimal text, or the word for an address there is none of. -/
theorem Made.address_text {key : PrivateKey scheme} (h : key.Made) :
    (∃ point, scheme.toLower key.address = scheme.addressText point) ∨
      scheme.toLower key.address = ⟨ascii "Invalid".toList, by decide⟩ := by
  rcases h.cases with ⟨-, -, haddress⟩ | ⟨-, -, haddress⟩
  · rw [← haddress, SignatureScheme.get_address]
    split
    · exact Or.inr rfl
    · exact Or.inl ⟨_, rfl⟩
  · unfold SignatureScheme.CRYPTO_generate_address at haddress
    split at haddress
    · cases haddress
    · exact Or.inl ⟨_, (Except.ok.inj haddress).symm⟩

/-- An address is no empty text, and there is no brace in it. -/
theorem Made.no_brace (hscheme : scheme.Lawful) {key : PrivateKey scheme} (h : key.Made) :
    key.address ≠ ∅ ∧ 125 ∉ key.address.val := by
  have hlower := hscheme.toLower key.address
  have hbrace : 125 ∈ key.address.val → 125 ∈ (scheme.toLower key.address).val := by
    intro hc
    rw [hlower, show (125 : UInt8) = lowerCase 125 by decide]
    exact List.mem_map_of_mem hc
  have hempty : key.address = ∅ → (scheme.toLower key.address).val = [] := by
    intro he
    rw [hlower, he]
    rfl
  rcases h.address_text with ⟨point, htext⟩ | htext
  · rw [htext] at hbrace hempty
    refine ⟨fun he => absurd (hempty he) (by simp [SignatureScheme.addressText, ascii]), ?_⟩
    intro hc
    rcases List.mem_append.mp (hbrace hc) with hx | hx
    · exact absurd hx (by decide)
    · exact hexBytes_ne_brace _ hx rfl
  · rw [htext] at hbrace hempty
    exact ⟨fun he => absurd (hempty he) (by decide), fun hc => absurd (hbrace hc) (by decide)⟩

/-- How long an address is. -/
theorem Made.size_address (hscheme : scheme.Lawful) {key : PrivateKey scheme} (h : key.Made) :
    key.address.size = 52 ∨ key.address.size = 7 := by
  have hsize : (scheme.toLower key.address).size = key.address.size := by
    rw [Blob.size, hscheme.toLower, List.length_map]
    rfl
  rcases h.address_text with ⟨point, htext⟩ | htext
  · left
    rw [← hsize, htext, Blob.size, SignatureScheme.addressText, List.length_append,
      length_hexBytes, SignatureScheme.length_addressBytes]
    rfl
  · right
    rw [← hsize, htext]
    rfl

/--
For a key with an uncompressed point the address is spelled as `get_address` spells it
exactly if it has no capital letters.
-/
theorem Made.get_address_iff {key : PrivateKey scheme} (h : key.Made) (hkind : key.isSecp = false)
    (hpoint : key.pubk.val[key.pubk.size - 65]? = some 4) :
    scheme.get_address key.pubk = key.address ↔ scheme.toLower key.address = key.address := by
  rcases h.cases with ⟨hsecp, -⟩ | ⟨-, -, haddress⟩
  · rw [hkind] at hsecp
    cases hsecp
  · unfold SignatureScheme.CRYPTO_generate_address at haddress
    split at haddress
    · cases haddress
    · rename_i hlong
      have hdrop : key.pubk.val.drop (key.pubk.size - 65) =
          4 :: key.pubk.val.drop (key.pubk.size - 64) := by
        obtain ⟨hlt, hget⟩ := List.getElem?_eq_some_iff.mp hpoint
        rw [List.drop_eq_getElem_cons hlt, hget]
        congr 2
        omega
      rw [← Except.ok.inj haddress, SignatureScheme.get_address, if_neg hlong, hdrop]

end PrivateKey

end TorrentNode
