import Clearvoiance.ControlPlane
import Clearvoiance.JobInvocation

/-! Password hashes.  A hash is stored as one text with the parameters of argon2id, the salt and the derived key; to
verify a password the text is read back and the key derived again.  The reader takes more texts than the writer
writes: it skips blanks in front of a number and whatever follows the last one. -/
namespace Clearvoiance
namespace PasswordHash

open BufferEncodings (fromSextets)
open Dispatchers.Invoke (base64Digit encodeToString)

abbrev Bytes := Hex.Bytes

structure Argon2idParams where
  memory : UInt32
  iterations : UInt32
  parallelism : UInt8
  saltLength : UInt32
  keyLength : UInt32
  deriving DecidableEq

def defaultArgon2idParams : Argon2idParams := ⟨64*1024,3,2,16,32⟩

/-- `argon2.IDKey` of a password, a salt, the iterations, the memory, the parallelism and the length of the key. -/
abbrev IDKey := Bytes → Bytes → UInt32 → UInt32 → UInt8 → UInt32 → Bytes

def argon2Version : ℕ := 19

section Base64

def stdValue (c : Char) : Option ℕ :=
  let n := c.toNat
  if 65 ≤ n ∧ n ≤ 90 then some (n-65)
  else if 97 ≤ n ∧ n ≤ 122 then some (n-71)
  else if 48 ≤ n ∧ n ≤ 57 then some (n+4)
  else if n = 43 then some 62
  else if n = 47 then some 63
  else none

/-- `base64.RawStdEncoding.EncodeToString`. -/
def rawStd (raw : Bytes) : List Char := (encodeToString raw).filter (· ≠ '=')

/-- `base64.RawStdEncoding.DecodeString`; line ends are skipped, and bits that are left over. -/
def decodeString (s : List Char) : Option Bytes :=
  match (s.filter fun c => c ≠ '\r' && c ≠ '\n').mapM stdValue with
  | some digits => if digits.length % 4 = 1 then none else some (fromSextets digits)
  | none => none

def toSextets : Bytes → List ℕ
  | a :: b :: c :: rest =>
    let n := a.toNat*65536+b.toNat*256+c.toNat
    n/262144 :: n/4096 % 64 :: n/64 % 64 :: n % 64 :: toSextets rest
  | [a,b] =>
    let n := a.toNat*65536+b.toNat*256
    [n/262144,n/4096 % 64,n/64 % 64]
  | [a] =>
    let n := a.toNat*65536
    [n/262144,n/4096 % 64]
  | [] => []

theorem base64Digit_spec : ∀ n < 64, stdValue (base64Digit n) = some n ∧ base64Digit n ≠ '=' ∧
    base64Digit n ≠ '\r' ∧ base64Digit n ≠ '\n' ∧ base64Digit n ≠ '$' := by decide

theorem toSextets_lt : ∀ raw : Bytes, ∀ n ∈ toSextets raw, n < 64
  | a :: b :: c :: rest => by
    have ha := a.toNat_lt
    have hb := b.toNat_lt
    have hc := c.toNat_lt
    have hrest := toSextets_lt rest
    simp only [toSextets,List.forall_mem_cons]
    exact ⟨by omega,by omega,by omega,by omega,hrest⟩
  | [a,b] => by
    have ha := a.toNat_lt
    have hb := b.toNat_lt
    simp only [toSextets,List.forall_mem_cons]
    exact ⟨by omega,by omega,by omega,by simp⟩
  | [a] => by
    have ha := a.toNat_lt
    simp only [toSextets,List.forall_mem_cons]
    exact ⟨by omega,by omega,by simp⟩
  | [] => by simp [toSextets]

theorem toSextets_length : ∀ raw : Bytes, (toSextets raw).length % 4 ≠ 1
  | a :: b :: c :: rest => by
    have hrest := toSextets_length rest
    simp only [toSextets,List.length_cons]
    omega
  | [_,_] | [_] | [] => by simp [toSextets]

theorem fromSextets_toSextets : ∀ raw : Bytes, fromSextets (toSextets raw) = raw
  | a :: b :: c :: rest => by
    have ha := a.toNat_lt
    have hb := b.toNat_lt
    have hc := c.toNat_lt
    rw [toSextets,fromSextets,fromSextets_toSextets rest]
    refine List.cons_eq_cons.mpr ⟨JobInvocation.ofNat_toNat ?_,List.cons_eq_cons.mpr ⟨JobInvocation.ofNat_toNat ?_,
      List.cons_eq_cons.mpr ⟨JobInvocation.ofNat_toNat ?_,rfl⟩⟩⟩ <;> omega
  | [a,b] => by
    have ha := a.toNat_lt
    have hb := b.toNat_lt
    rw [toSextets,fromSextets]
    refine List.cons_eq_cons.mpr ⟨JobInvocation.ofNat_toNat ?_,List.cons_eq_cons.mpr
      ⟨JobInvocation.ofNat_toNat ?_,rfl⟩⟩ <;> omega
  | [a] => by
    have ha := a.toNat_lt
    rw [toSextets,fromSextets]
    exact List.cons_eq_cons.mpr ⟨JobInvocation.ofNat_toNat (by omega),rfl⟩
  | [] => rfl

theorem filter_digits {ns : List ℕ} (h : ∀ n ∈ ns, n < 64) (p : Char → Bool)
    (hp : ∀ n < 64, p (base64Digit n) = true) : (ns.map base64Digit).filter p = ns.map base64Digit := by
  rw [List.filter_eq_self]
  intro c hc
  obtain ⟨n,hn,rfl⟩ := List.mem_map.mp hc
  exact hp n (h n hn)

theorem encodeToString_eq : ∀ raw : Bytes,
    ∃ k, encodeToString raw = (toSextets raw).map base64Digit ++ List.replicate k '='
  | a :: b :: c :: rest => by
    obtain ⟨k,hk⟩ := encodeToString_eq rest
    exact ⟨k,by rw [encodeToString,hk]; rfl⟩
  | [_,_] => ⟨1,rfl⟩
  | [_] => ⟨2,rfl⟩
  | [] => ⟨0,rfl⟩

theorem rawStd_eq (raw : Bytes) : rawStd raw = (toSextets raw).map base64Digit := by
  obtain ⟨k,hk⟩ := encodeToString_eq raw
  rw [rawStd,hk,List.filter_append,filter_digits (toSextets_lt raw) _
    fun n hn => decide_eq_true (base64Digit_spec n hn).2.1]
  simp

theorem mapM_digits {ns : List ℕ} (h : ∀ n ∈ ns, n < 64) : (ns.map base64Digit).mapM stdValue = some ns := by
  induction ns with
  | nil => rfl
  | cons n ns ih =>
    rw [List.map_cons,List.mapM_cons,(base64Digit_spec n (h n (by simp))).1,ih fun m hm => h m (by simp [hm])]
    rfl

theorem decodeString_rawStd (raw : Bytes) : decodeString (rawStd raw) = some raw := by
  have hplain := filter_digits (toSextets_lt raw) (fun c => c ≠ '\r' && c ≠ '\n') fun n hn => by
    obtain ⟨-,-,hr,hn,-⟩ := base64Digit_spec n hn
    simp [hr,hn]
  rw [decodeString,rawStd_eq,hplain,mapM_digits (toSextets_lt raw)]
  simp only
  rw [if_neg (toSextets_length raw),fromSextets_toSextets]

theorem dollar_notMem_rawStd (raw : Bytes) : '$' ∉ rawStd raw := by
  rw [rawStd_eq]
  intro hmem
  obtain ⟨n,hn,hdollar⟩ := List.mem_map.mp hmem
  exact (base64Digit_spec n (toSextets_lt raw n hn)).2.2.2.2 hdollar

end Base64

section Scanning

/-- Blanks in front of a number; a line end is an error. -/
def skipSpace : List Char → Option (List Char)
  | [] => some []
  | c :: cs => if c = '\n' then none else if ControlPlane.isSpace c then skipSpace cs else some (c :: cs)

def scanNumber (cs : List Char) : Option (ℕ × List Char) :=
  if cs.takeWhile Char.isDigit = [] then none
  else some (Nat.ofDigitChars 10 (cs.takeWhile Char.isDigit) 0,cs.dropWhile Char.isDigit)

/-- `%d` into an unsigned integer. -/
def scanUint (bits : ℕ) (cs : List Char) : Option (ℕ × List Char) := do
  let (n,rest) ← scanNumber (← skipSpace cs)
  if n < 2^bits then some (n,rest) else none

/-- `%d` into an `int`. -/
def scanInt (cs : List Char) : Option (ℤ × List Char) := do
  match ← skipSpace cs with
  | '-' :: cs =>
    let (n,rest) ← scanNumber cs
    if n ≤ 2^63 then some (-n,rest) else none
  | '+' :: cs =>
    let (n,rest) ← scanNumber cs
    if n < 2^63 then some (n,rest) else none
  | cs =>
    let (n,rest) ← scanNumber cs
    if n < 2^63 then some (n,rest) else none

/-- Text of the format, which the input must repeat. -/
def literal (text : String) (cs : List Char) : Option (List Char) :=
  if text.toList.isPrefixOf cs then some (cs.drop text.toList.length) else none

/-- `fmt.Sscanf` with `v=%d`. -/
def scanVersion (cs : List Char) : Option ℤ := do
  let (version,_) ← scanInt (← literal "v=" cs)
  some version

/-- `fmt.Sscanf` with `m=%d,t=%d,p=%d`. -/
def scanParams (cs : List Char) : Option (UInt32 × UInt32 × UInt8) := do
  let (memory,cs) ← scanUint 32 (← literal "m=" cs)
  let (iterations,cs) ← scanUint 32 (← literal ",t=" cs)
  let (parallelism,_) ← scanUint 8 (← literal ",p=" cs)
  some (UInt32.ofNat memory,UInt32.ofNat iterations,UInt8.ofNat parallelism)

end Scanning

def errInvalidPasswordHash : String := "invalid password hash"

/-- `HashPassword` with the salt that it has drawn. -/
def hashPassword (idKey : IDKey) (salt : Bytes) (plaintext : String) (p : Argon2idParams) : String :=
  let hash := idKey (Hex.utf8 plaintext) salt p.iterations p.memory p.parallelism p.keyLength
  String.ofList ("$argon2id$v=".toList ++ Nat.toDigits 10 argon2Version ++ "$m=".toList ++
    Nat.toDigits 10 p.memory.toNat ++ ",t=".toList ++ Nat.toDigits 10 p.iterations.toNat ++ ",p=".toList ++
    Nat.toDigits 10 p.parallelism.toNat ++ '$' :: rawStd salt ++ '$' :: rawStd hash)

/-- What is made of the parts of a stored hash. -/
def verifyParts (idKey : IDKey) (plaintext : String) : List (List Char) → Except String Bool
  | [_,name,version,params,salt,hash] =>
    if name = "argon2id".toList ∧ scanVersion version = some (argon2Version : ℤ) then
      match scanParams params,decodeString salt,decodeString hash with
      | some (memory,iterations,parallelism),some salt,some storedHash =>
        .ok (decide (storedHash = idKey (Hex.utf8 plaintext) salt iterations memory parallelism
          (UInt32.ofNat storedHash.length)))
      | _,_,_ => .error errInvalidPasswordHash
    else .error errInvalidPasswordHash
  | _ => .error errInvalidPasswordHash

def verifyPassword (idKey : IDKey) (plaintext encoded : String) : Except String Bool :=
  verifyParts idKey plaintext (encoded.toList.splitOn '$')

section Reading

variable {rest : List Char} {n : ℕ}

theorem isDigit_toDigits {c : Char} (h : c ∈ Nat.toDigits 10 n) : c.isDigit = true :=
  Nat.isDigit_of_mem_toDigits (by decide) (by decide) h

theorem isSpace_digit {c : Char} (h : c.isDigit = true) : ControlPlane.isSpace c = false := by
  have hrange : 48 ≤ c.toNat ∧ c.toNat ≤ 57 := by
    simp only [Char.isDigit,Bool.and_eq_true,decide_eq_true_eq,ge_iff_le,UInt32.le_iff_toNat_le] at h
    exact h
  simp only [ControlPlane.isSpace,Bool.or_eq_false_iff,Bool.and_eq_false_iff,decide_eq_false_iff_not,
    beq_eq_false_iff_ne]
  omega

theorem skipSpace_digit {c : Char} (h : c.isDigit = true) (cs : List Char) :
    skipSpace (c :: cs) = some (c :: cs) := by
  have hline : c ≠ '\n' := by
    rintro rfl
    cases h
  rw [skipSpace,if_neg hline,isSpace_digit h]
  rfl

theorem scanNumber_toDigits (hrest : ∀ c, rest.head? = some c → c.isDigit = false) :
    scanNumber (Nat.toDigits 10 n ++ rest) = some (n,rest) := by
  have htake : rest.takeWhile Char.isDigit = [] ∧ rest.dropWhile Char.isDigit = rest := by
    cases rest with
    | nil => exact ⟨rfl,rfl⟩
    | cons c cs =>
      have hc := hrest c rfl
      exact ⟨List.takeWhile_cons_of_neg (by simp [hc]),List.dropWhile_cons_of_neg (by simp [hc])⟩
  unfold scanNumber
  rw [List.takeWhile_append_of_pos fun c hc => isDigit_toDigits hc,
    List.dropWhile_append_of_pos fun c hc => isDigit_toDigits hc,htake.1,htake.2,List.append_nil,
    if_neg Nat.toDigits_ne_nil]
  simp

theorem skipSpace_toDigits (rest : List Char) :
    skipSpace (Nat.toDigits 10 n ++ rest) = some (Nat.toDigits 10 n ++ rest) := by
  obtain ⟨c,cs,hcs⟩ := List.exists_cons_of_ne_nil (Nat.toDigits_ne_nil (n := n) (b := 10))
  rw [hcs,List.cons_append]
  exact skipSpace_digit (isDigit_toDigits (n := n) (hcs ▸ by simp)) _

theorem scanUint_toDigits {bits : ℕ} (hn : n < 2^bits) (hrest : ∀ c, rest.head? = some c → c.isDigit = false) :
    scanUint bits (Nat.toDigits 10 n ++ rest) = some (n,rest) := by
  unfold scanUint
  rw [skipSpace_toDigits]
  simp [scanNumber_toDigits hrest,hn]

theorem literal_append (text : String) (cs : List Char) : literal text (text.toList ++ cs) = some cs := by
  unfold literal
  rw [if_pos (by simp),List.drop_left]

theorem scanVersion_written :
    scanVersion ("v=".toList ++ Nat.toDigits 10 argon2Version) = some (argon2Version : ℤ) := by
  decide

def paramsText (p : Argon2idParams) : List Char :=
  "m=".toList ++ (Nat.toDigits 10 p.memory.toNat ++ (",t=".toList ++ (Nat.toDigits 10 p.iterations.toNat ++
    (",p=".toList ++ Nat.toDigits 10 p.parallelism.toNat))))

theorem scanParams_written (p : Argon2idParams) :
    scanParams (paramsText p) = some (p.memory,p.iterations,p.parallelism) := by
  have hcomma : ∀ (text : String) (cs : List Char), text.toList.head? = some ',' →
      ∀ c, (text.toList ++ cs).head? = some c → c.isDigit = false := by
    intro text cs htext c hc
    rw [List.head?_append,htext] at hc
    cases hc
    rfl
  have hend : scanUint 8 (Nat.toDigits 10 p.parallelism.toNat ++ []) = some (p.parallelism.toNat,[]) :=
    scanUint_toDigits p.parallelism.toNat_lt (by simp)
  have hlast : scanUint 8 (Nat.toDigits 10 p.parallelism.toNat) = some (p.parallelism.toNat,[]) := by
    simpa using hend
  unfold scanParams paramsText
  simp only [literal_append,Option.bind_eq_bind,Option.bind_some]
  rw [scanUint_toDigits p.memory.toNat_lt (hcomma ",t=" _ rfl)]
  simp only [literal_append,Option.bind_some]
  rw [scanUint_toDigits p.iterations.toNat_lt (hcomma ",p=" _ rfl)]
  simp only [literal_append,Option.bind_some]
  rw [hlast]
  simp

theorem dollar_notMem_digits (n : ℕ) : '$' ∉ Nat.toDigits 10 n := by
  intro h
  cases isDigit_toDigits h

theorem split_five {a b c d e : List Char} (ha : '$' ∉ a) (hb : '$' ∉ b) (hc : '$' ∉ c) (hd : '$' ∉ d)
    (he : '$' ∉ e) :
    ('$' :: (a ++ '$' :: (b ++ '$' :: (c ++ '$' :: (d ++ '$' :: e))))).splitOn '$' = [[],a,b,c,d,e] := by
  rw [← List.nil_append ('$' :: _),List.splitOn_append_cons_self,List.splitOn_append_cons_self,
    List.splitOn_append_cons_self,List.splitOn_append_cons_self,List.splitOn_append_cons_self,
    List.splitOn_eq_singleton ha,List.splitOn_eq_singleton hb,List.splitOn_eq_singleton hc,
    List.splitOn_eq_singleton hd,List.splitOn_eq_singleton he]
  rfl

theorem hashPassword_toList (idKey : IDKey) (salt : Bytes) (plaintext : String) (p : Argon2idParams) :
    (hashPassword idKey salt plaintext p).toList = '$' :: ("argon2id".toList ++ '$' ::
      (("v=".toList ++ Nat.toDigits 10 argon2Version) ++ '$' :: (paramsText p ++ '$' :: (rawStd salt ++ '$' ::
      rawStd (idKey (Hex.utf8 plaintext) salt p.iterations p.memory p.parallelism p.keyLength))))) := by
  have hhead : "$argon2id$v=".toList = '$' :: ("argon2id".toList ++ '$' :: "v=".toList) := by simp
  have hparam : "$m=".toList = '$' :: "m=".toList := by simp
  unfold hashPassword paramsText
  rw [String.toList_ofList,hhead,hparam]
  generalize Nat.toDigits 10 argon2Version = version
  simp only [List.append_assoc,List.cons_append]

theorem dollar_notMem_paramsText (p : Argon2idParams) : '$' ∉ paramsText p := by
  simp [paramsText,dollar_notMem_digits]

theorem splitOn_hashPassword (idKey : IDKey) (salt : Bytes) (plaintext : String) (p : Argon2idParams) :
    (hashPassword idKey salt plaintext p).toList.splitOn '$' = [[],"argon2id".toList,
      "v=".toList ++ Nat.toDigits 10 argon2Version,paramsText p,rawStd salt,
      rawStd (idKey (Hex.utf8 plaintext) salt p.iterations p.memory p.parallelism p.keyLength)] := by
  have hname : '$' ∉ "argon2id".toList := by simp
  have hversion : '$' ∉ "v=".toList ++ Nat.toDigits 10 argon2Version := by simp [dollar_notMem_digits]
  rw [hashPassword_toList]
  exact split_five hname hversion (dollar_notMem_paramsText p) (dollar_notMem_rawStd salt) (dollar_notMem_rawStd _)

/-- A stored hash is read back whatever the parameters and the salt are: a password is verified exactly when it
derives the key that was stored, and the hash is never found malformed. -/
theorem verify_hashPassword (idKey : IDKey)
    (hlength : ∀ password salt t m p n, (idKey password salt t m p n).length = n.toNat)
    (salt : Bytes) (plaintext password : String) (p : Argon2idParams) :
    verifyPassword idKey password (hashPassword idKey salt plaintext p) =
      .ok (decide (idKey (Hex.utf8 plaintext) salt p.iterations p.memory p.parallelism p.keyLength =
        idKey (Hex.utf8 password) salt p.iterations p.memory p.parallelism p.keyLength)) := by
  rw [verifyPassword,splitOn_hashPassword]
  simp only [verifyParts,scanVersion_written,scanParams_written,decodeString_rawStd,hlength,UInt32.ofNat_toNat,
    and_self,if_true]

end Reading

end PasswordHash
end Clearvoiance
