import Clearvoiance.Hex

/-! SHA-256.  Words are natural numbers below `2^32`. -/
namespace Clearvoiance
namespace Sha256

open Hex

def roundConstants : List ℕ :=
  [0x428a2f98,0x71374491,0xb5c0fbcf,0xe9b5dba5,0x3956c25b,0x59f111f1,0x923f82a4,0xab1c5ed5,
   0xd807aa98,0x12835b01,0x243185be,0x550c7dc3,0x72be5d74,0x80deb1fe,0x9bdc06a7,0xc19bf174,
   0xe49b69c1,0xefbe4786,0x0fc19dc6,0x240ca1cc,0x2de92c6f,0x4a7484aa,0x5cb0a9dc,0x76f988da,
   0x983e5152,0xa831c66d,0xb00327c8,0xbf597fc7,0xc6e00bf3,0xd5a79147,0x06ca6351,0x14292967,
   0x27b70a85,0x2e1b2138,0x4d2c6dfc,0x53380d13,0x650a7354,0x766a0abb,0x81c2c92e,0x92722c85,
   0xa2bfe8a1,0xa81a664b,0xc24b8b70,0xc76c51a3,0xd192e819,0xd6990624,0xf40e3585,0x106aa070,
   0x19a4c116,0x1e376c08,0x2748774c,0x34b0bcb5,0x391c0cb3,0x4ed8aa4a,0x5b9cca4f,0x682e6ff3,
   0x748f82ee,0x78a5636f,0x84c87814,0x8cc70208,0x90befffa,0xa4506ceb,0xbef9a3f7,0xc67178f2]

def initial : List ℕ :=
  [0x6a09e667,0xbb67ae85,0x3c6ef372,0xa54ff53a,0x510e527f,0x9b05688c,0x1f83d9ab,0x5be0cd19]

def rotr (n x : ℕ) : ℕ := (x >>> n ||| x <<< (32-n)) % 2^32

def smallSigma0 (x : ℕ) : ℕ := rotr 7 x ^^^ rotr 18 x ^^^ x >>> 3

def smallSigma1 (x : ℕ) : ℕ := rotr 17 x ^^^ rotr 19 x ^^^ x >>> 10

def bigSigma0 (x : ℕ) : ℕ := rotr 2 x ^^^ rotr 13 x ^^^ rotr 22 x

def bigSigma1 (x : ℕ) : ℕ := rotr 6 x ^^^ rotr 11 x ^^^ rotr 25 x

def choose (x y z : ℕ) : ℕ := (x &&& y) ^^^ ((x ^^^ 0xffffffff) &&& z)

def majority (x y z : ℕ) : ℕ := (x &&& y) ^^^ (x &&& z) ^^^ (y &&& z)

/-- The message schedule with its latest word first, `n` words further. -/
def extend : ℕ → List ℕ → List ℕ
  | 0,ws => ws
  | n+1,ws =>
    extend n ((smallSigma1 (ws.getD 1 0)+ws.getD 6 0+smallSigma0 (ws.getD 14 0)+ws.getD 15 0) % 2^32 :: ws)

def round (s : List ℕ) (kw : ℕ × ℕ) : List ℕ :=
  match s with
  | [a,b,c,d,e,f,g,h] =>
    let t1 := h+bigSigma1 e+choose e f g+kw.1+kw.2
    let t2 := bigSigma0 a+majority a b c
    [(t1+t2) % 2^32,a,b,c,(d+t1) % 2^32,e,f,g]
  | s => s

def word (bs : Bytes) : ℕ := bs.foldl (fun n b => 256*n+b.toNat) 0

def words (n : ℕ) (bs : Bytes) : List ℕ := (List.range n).map fun i => word ((bs.drop (4*i)).take 4)

def compress (s : List ℕ) (block : Bytes) : List ℕ :=
  let schedule := (extend 48 (words 16 block).reverse).reverse
  List.zipWith (fun x y => (x+y) % 2^32) s ((roundConstants.zip schedule).foldl round s)

def bigEndian (width n : ℕ) : Bytes := (List.range width).map fun i => UInt8.ofNat (n/256^(width-1-i))

def pad (bs : Bytes) : Bytes :=
  bs ++ 0x80 :: List.replicate ((119-bs.length % 64) % 64) 0 ++ bigEndian 8 (8*bs.length)

def sum256 (bs : Bytes) : Bytes :=
  let padded := pad bs
  let final := (List.range (padded.length/64)).foldl (fun s i => compress s ((padded.drop (64*i)).take 64)) initial
  final.flatMap (bigEndian 4)

theorem round_length (s : List ℕ) (kw : ℕ × ℕ) : (round s kw).length = s.length := by
  unfold round
  split <;> simp

/-- Folding a function that keeps the number of words keeps it. -/
theorem foldl_length {β : Type*} {f : List ℕ → β → List ℕ} (hf : ∀ s x, (f s x).length = s.length) (xs : List β)
    (s : List ℕ) : (xs.foldl f s).length = s.length := by
  induction xs generalizing s with
  | nil => rfl
  | cons x xs ih => rw [List.foldl_cons,ih,hf]

theorem compress_length (s : List ℕ) (block : Bytes) : (compress s block).length = s.length := by
  simp [compress,foldl_length round_length]

@[simp] theorem sum256_length (bs : Bytes) : (sum256 bs).length = 32 := by
  have h4 : ∀ n, (bigEndian 4 n).length = 4 := by
    intro n
    simp [bigEndian]
  simp only [sum256,List.length_flatMap,h4,List.map_const',List.sum_replicate]
  rw [foldl_length fun s i => compress_length s _]
  rfl

end Sha256
end Clearvoiance
