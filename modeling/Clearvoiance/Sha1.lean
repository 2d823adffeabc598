import Clearvoiance.Sha256

/-! SHA-1, with the padding and the byte order of SHA-256. -/
namespace Clearvoiance
namespace Sha1

open Hex Sha256

def initial : List ℕ := [0x67452301,0xefcdab89,0x98badcfe,0x10325476,0xc3d2e1f0]

def rotl (n x : ℕ) : ℕ := (x <<< n ||| x >>> (32-n)) % 2^32

/-- The message schedule with its latest word first, `n` words further. -/
def extend : ℕ → List ℕ → List ℕ
  | 0,ws => ws
  | n+1,ws => extend n (rotl 1 (ws.getD 2 0 ^^^ ws.getD 7 0 ^^^ ws.getD 13 0 ^^^ ws.getD 15 0) :: ws)

def mix (i b c d : ℕ) : ℕ × ℕ :=
  if i < 20 then ((b &&& c) ||| ((b ^^^ 0xffffffff) &&& d),0x5a827999)
  else if i < 40 then (b ^^^ c ^^^ d,0x6ed9eba1)
  else if i < 60 then ((b &&& c) ||| (b &&& d) ||| (c &&& d),0x8f1bbcdc)
  else (b ^^^ c ^^^ d,0xca62c1d6)

def round (s : List ℕ) (iw : ℕ × ℕ) : List ℕ :=
  match s with
  | [a,b,c,d,e] => [(rotl 5 a+(mix iw.1 b c d).1+e+(mix iw.1 b c d).2+iw.2) % 2^32,a,rotl 30 b,c,d]
  | s => s

def compress (s : List ℕ) (block : Bytes) : List ℕ :=
  let schedule := (extend 64 (words 16 block).reverse).reverse
  List.zipWith (fun x y => (x+y) % 2^32) s (((List.range 80).zip schedule).foldl round s)

def sum (bs : Bytes) : Bytes :=
  let padded := pad bs
  let final := (List.range (padded.length/64)).foldl (fun s i => compress s ((padded.drop (64*i)).take 64)) initial
  final.flatMap (bigEndian 4)

theorem round_length (s : List ℕ) (iw : ℕ × ℕ) : (round s iw).length = s.length := by
  unfold round
  split <;> rfl

theorem compress_length (s : List ℕ) (block : Bytes) : (compress s block).length = s.length := by
  simp [compress,foldl_length round_length]

@[simp] theorem sum_length (bs : Bytes) : (sum bs).length = 20 := by
  have h4 : ∀ n, (bigEndian 4 n).length = 4 := by
    intro n
    simp [bigEndian]
  simp only [sum,List.length_flatMap,h4,List.map_const',List.sum_replicate]
  rw [foldl_length fun s i => compress_length s _]
  rfl

example : encodeToString (sum (utf8 "abc")) = "a9993e364706816aba3e25717850c26c9cd0d89d".toList := by decide +kernel

end Sha1
end Clearvoiance
