import ChirpGateway.Config.Options
import ChirpGateway.Lib.Hex
import ChirpGateway.Lib.Wire
import Mathlib.Data.List.GetD

/-!
# Who may change the configuration

`datum_secure_strequals` (`datum_utils.c:843-855`), which goes through the whole guess whatever
it finds, and `datum_api_check_admin_password` (`datum_api.c:462-533`).
-/

namespace ChirpGateway

open Bytes Buffer

/-- A `char` as a `size_t`: with the sign it has. -/
def charToSize (c : UInt8) : UInt64 :=
  if c < 128 then c.toUInt64 else c.toUInt64 ||| 0xffffffffffffff00

/-- One turn of the loop of `datum_secure_strequals`. -/
def compareChar (secret : List UInt8) (secretLen : Nat) (acc : UInt64) (place : UInt8 × Nat) :
    UInt64 :=
  acc ||| (charToSize place.1 ^^^ charToSize (secret.getD (place.2 % secretLen) 0))

/-- `datum_secure_strequals`; an empty secret is read as its terminator. -/
def datumSecureStrequals (secret : List UInt8) (secretLen : Nat) (guess : Option (List UInt8)) :
    Bool :=
  match guess with
  | none => false
  | some guess =>
    let acc := UInt64.ofNat secretLen ^^^ UInt64.ofNat guess.length
    let (secret, secretLen) := if secretLen = 0 then ([0], 1) else (secret, secretLen)
    guess.zipIdx.foldl (compareChar secret secretLen) acc = 0

theorem charToSize_injective {a b : UInt8} (h : charToSize a = charToSize b) : a = b := by
  have hlow (c : UInt8) : (charToSize c).toUInt8 = c := by
    rw [charToSize]
    split
    · simp
    · rw [UInt64.toUInt8_or, UInt8.toUInt8_toUInt64]
      exact UInt8.or_zero
  rw [← hlow a, h, hlow b]

/-- Nothing that differs is forgotten. -/
theorem foldl_compareChar_eq_zero_iff (secret : List UInt8) (secretLen : Nat) (acc : UInt64)
    (places : List (UInt8 × Nat)) :
    places.foldl (compareChar secret secretLen) acc = 0 ↔
      acc = 0 ∧ ∀ place ∈ places, place.1 = secret.getD (place.2 % secretLen) 0 := by
  induction places generalizing acc with
  | nil => simp
  | cons place places ih =>
    rw [List.foldl_cons, ih, compareChar, UInt64.or_eq_zero_iff, UInt64.xor_eq_zero_iff,
      List.forall_mem_cons, and_assoc]
    refine and_congr_right fun _ => and_congr_left fun _ => ?_
    exact ⟨charToSize_injective, congrArg charToSize⟩

/-- The lengths differ, or else the characters do. -/
theorem lengths_xor_eq_zero_iff {m n : Nat} (hm : m < 2 ^ 64) (hn : n < 2 ^ 64) :
    UInt64.ofNat m ^^^ UInt64.ofNat n = 0 ↔ m = n := by
  rw [UInt64.xor_eq_zero_iff, ← UInt64.toNat_inj, UInt64.toNat_ofNat_of_lt' hm,
    UInt64.toNat_ofNat_of_lt' hn]

/-- The guess is the secret. -/
theorem datumSecureStrequals_iff {secret guess : List UInt8} (hsecret : secret.length < 2 ^ 64)
    (hguess : guess.length < 2 ^ 64) :
    datumSecureStrequals secret secret.length (some guess) = true ↔ guess = secret := by
  simp only [datumSecureStrequals, decide_eq_true_eq, foldl_compareChar_eq_zero_iff,
    lengths_xor_eq_zero_iff hsecret hguess]
  constructor
  · rintro ⟨hlength, hplaces⟩
    refine List.ext_getElem hlength.symm fun i hi hi' => ?_
    have hplace := hplaces (guess[i], i) (List.mem_zipIdx_iff_getElem?.mpr (by simp [hi]))
    rw [if_neg (by omega), Nat.mod_eq_of_lt hi', List.getD_eq_getElem _ _ hi'] at hplace
    exact hplace
  · rintro rfl
    refine ⟨rfl, fun place hplace => ?_⟩
    have hget := List.mem_zipIdx_iff_getElem?.mp hplace
    obtain ⟨hi, hget⟩ := List.getElem?_eq_some_iff.mp hget
    rw [if_neg (by omega), Nat.mod_eq_of_lt hi, List.getD_eq_getElem _ _ hi, hget]

/-! ## The admin's password -/

/-- How the check of a request ends; but for the first an answer is sent. -/
inductive AdminCheck where
  | granted
  /-- Status 403, with the page for a failed login. -/
  | forbidden
  /-- Status 401, which asks for the password again. -/
  | unauthorized
  deriving DecidableEq

/-- `api_csrf_token`, as `datum_read_config` computes it; without a password it stays zero. -/
def apiCsrfToken (sha256 : List UInt8 → List UInt8) (cfg : GlobalConfig) : List UInt8 :=
  if cfg.string .apiAdminPassword = [] then List.replicate 64 0
  else
    Hex.encode (sha256 (ascii "DATUM Anti-CSRF Token" ++ [0] ++
      Wire.leBytes 4 (cfg.int .apiListenPort % 2 ^ 32).toNat ++ cfg.string .apiAdminPassword))

/-- `datum_api_check_admin_password` on the strings `password` and `csrf` of the request;
    `digestAuth` is what the HTTP server says of its digest, once it is asked. -/
def datumApiCheckAdminPassword (sha256 : List UInt8 → List UInt8) (cfg : GlobalConfig)
    (password csrf : Option (List UInt8)) (digestAuth : Bool) : AdminCheck :=
  let apiAdminPassword := cfg.string .apiAdminPassword
  match password with
  | some password =>
    if datumSecureStrequals apiAdminPassword apiAdminPassword.length (some (cString password)) &&
        apiAdminPassword.length ≠ 0 then .granted
    else .forbidden
  | none =>
    match csrf with
    | none => .forbidden
    | some csrf =>
      if !datumSecureStrequals (apiCsrfToken sha256 cfg) 64 (some (cString csrf)) then .forbidden
      else if digestAuth then .granted
      else .unauthorized

theorem length_apiCsrfToken {sha256 : List UInt8 → List UInt8}
    (hsha : ∀ text, (sha256 text).length = 32) (cfg : GlobalConfig) :
    (apiCsrfToken sha256 cfg).length = 64 := by
  rw [apiCsrfToken]
  split
  · exact List.length_replicate
  · rw [Hex.length_encode, hsha]

/-- Up to its terminator a text is no longer than it is. -/
theorem length_cString_lt {text : List UInt8} (h : text.length < 2 ^ 64) :
    (cString text).length < 2 ^ 64 :=
  Nat.lt_of_le_of_lt (List.takeWhile_sublist _).length_le h

/-- A request with a password is granted on it alone. -/
theorem granted_iff_of_password (sha256 : List UInt8 → List UInt8) {cfg : GlobalConfig}
    (hfield : (cfg.string .apiAdminPassword).length < StringField.apiAdminPassword.size)
    {text : List UInt8} (htext : text.length < 2 ^ 64) (csrf : Option (List UInt8))
    (digestAuth : Bool) :
    datumApiCheckAdminPassword sha256 cfg (some text) csrf digestAuth = .granted ↔
      cfg.string .apiAdminPassword ≠ [] ∧ cString text = cfg.string .apiAdminPassword := by
  have hsize : (cfg.string .apiAdminPassword).length < 2 ^ 64 := Nat.lt_trans hfield (by decide)
  have hequals := datumSecureStrequals_iff hsize (length_cString_lt htext)
  have hset : (cfg.string .apiAdminPassword).length ≠ 0 ↔ cfg.string .apiAdminPassword ≠ [] :=
    List.length_eq_zero_iff.not
  simp only [datumApiCheckAdminPassword]
  split
  · next hboth =>
    rw [Bool.and_eq_true, hequals, decide_eq_true_eq, hset] at hboth
    simp [hboth.1, hboth.2]
  · next hnot =>
    rw [Bool.and_eq_true, hequals, decide_eq_true_eq, hset, not_and'] at hnot
    simpa using hnot

/-- Without a password the token is no text of 64 characters. -/
theorem password_ne_nil_of_csrf {sha256 : List UInt8 → List UInt8} {cfg : GlobalConfig}
    {text : List UInt8} (h : cString text = apiCsrfToken sha256 cfg) :
    cfg.string .apiAdminPassword ≠ [] := by
  intro hnone
  rw [apiCsrfToken, if_pos hnone] at h
  exact zero_notMem_cString text (h ▸ List.mem_replicate.mpr ⟨by decide, rfl⟩)

/-- A request without one is granted on the token and the digest. -/
theorem granted_iff_of_csrf {sha256 : List UInt8 → List UInt8}
    (hsha : ∀ text, (sha256 text).length = 32) {cfg : GlobalConfig} {text : List UInt8}
    (htext : text.length < 2 ^ 64) (digestAuth : Bool) :
    datumApiCheckAdminPassword sha256 cfg none (some text) digestAuth = .granted ↔
      digestAuth = true ∧ cString text = apiCsrfToken sha256 cfg := by
  have htoken := length_apiCsrfToken hsha cfg
  have hequals := datumSecureStrequals_iff
    (show (apiCsrfToken sha256 cfg).length < 2 ^ 64 by rw [htoken]; decide)
    (length_cString_lt htext)
  rw [htoken] at hequals
  simp only [datumApiCheckAdminPassword]
  split
  · next hwrong =>
    rw [Bool.not_eq_true', ← Bool.not_eq_true, hequals] at hwrong
    simp [hwrong]
  · next hright =>
    rw [Bool.not_eq_true', Bool.not_eq_false, hequals] at hright
    cases digestAuth with
    | false => simp
    | true => simp [hright]

/-- A request is granted on the password itself, or on the token and the digest; where no
    password is set, none is. -/
theorem datumApiCheckAdminPassword_eq_granted_iff {sha256 : List UInt8 → List UInt8}
    (hsha : ∀ text, (sha256 text).length = 32) {cfg : GlobalConfig}
    (hfield : (cfg.string .apiAdminPassword).length < StringField.apiAdminPassword.size)
    {password csrf : Option (List UInt8)}
    (hpassword : ∀ text, password = some text → text.length < 2 ^ 64)
    (hcsrf : ∀ text, csrf = some text → text.length < 2 ^ 64) (digestAuth : Bool) :
    datumApiCheckAdminPassword sha256 cfg password csrf digestAuth = .granted ↔
      cfg.string .apiAdminPassword ≠ [] ∧
        ((∃ text, password = some text ∧ cString text = cfg.string .apiAdminPassword) ∨
          password = none ∧ digestAuth = true ∧
            ∃ text, csrf = some text ∧ cString text = apiCsrfToken sha256 cfg) := by
  cases password with
  | some text =>
    rw [granted_iff_of_password sha256 hfield (hpassword text rfl)]
    simp
  | none =>
    cases csrf with
    | none => simp [datumApiCheckAdminPassword]
    | some text =>
      rw [granted_iff_of_csrf hsha (hcsrf text rfl)]
      constructor
      · rintro ⟨hdigest, htoken⟩
        exact ⟨password_ne_nil_of_csrf htoken, .inr ⟨rfl, hdigest, text, rfl, htoken⟩⟩
      · rintro ⟨-, ⟨_, hnone, -⟩ | ⟨-, hdigest, _, heq, htoken⟩⟩
        · cases hnone
        · cases heq
          exact ⟨hdigest, htoken⟩

/-- The password itself. -/
theorem datumApiCheckAdminPassword_eq_granted_iff_password :
    datumApiCheckAdminPassword (fun _ => List.replicate 32 0)
      (GlobalConfig.setString (GlobalConfig.zero fun _ => 0) .apiAdminPassword (ascii "admin"))
      (some (ascii "admin")) none false = .granted :=
  (datumApiCheckAdminPassword_eq_granted_iff (fun _ => List.length_replicate) (by decide)
    (fun text htext => by cases htext; decide) (fun text htext => by cases htext) false).mpr
    ⟨by decide, .inl ⟨_, rfl, by decide⟩⟩

end ChirpGateway
