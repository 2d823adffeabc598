import Clearvoiance.JsonStrings

/-! Regular expressions as objects of a script.  With the flag `g` or `y` an expression remembers where its last match
ended: the next test begins there, and one that fails makes the expression begin anew. -/
namespace Clearvoiance
namespace RegExps

open JsonStrings (JsString isHigh isLow)

/-- A pattern with its flags; `matchAt` tells where a match that begins at a position ends. -/
structure RegExp where
  matchAt : JsString → ℕ → Option ℕ
  global : Bool
  sticky : Bool
  unicode : Bool

namespace RegExp

/-- The search from a position on, over the units that are left there. -/
def search (r : RegExp) (s : JsString) : JsString → ℕ → Option ℕ
  | [],i => r.matchAt s i
  | [_],i => (r.matchAt s i).or (if r.sticky then none else r.matchAt s (i+1))
  | x :: y :: t,i =>
    (r.matchAt s i).or
      (if r.sticky then none
       else if r.unicode && isHigh x.toNat && isLow y.toNat then r.search s t (i+2)
       else r.search s (y :: t) (i+1))

/-- `RegExp.prototype.exec`, of which only the end of the match is kept. -/
def exec (r : RegExp) (s : JsString) (lastIndex : ℕ) : Option ℕ :=
  if s.length < lastIndex then none else r.search s (s.drop lastIndex) lastIndex

def stateful (r : RegExp) : Bool := r.global || r.sticky

def test (r : RegExp) (lastIndex : ℕ) (s : JsString) : Bool × ℕ :=
  if r.stateful then
    match r.exec s lastIndex with
    | some e => (true,e)
    | none => (false,0)
  else ((r.exec s 0).isSome,lastIndex)

theorem test_stateless {r : RegExp} (h : r.stateful = false) (i : ℕ) (s : JsString) :
    (r.test i s).1 = (r.test 0 s).1 ∧ (r.test i s).2 = i := by
  simp [test,h]

/-- A test that fails leaves an expression that tests the same text like a new one. -/
theorem test_retry {r : RegExp} {i : ℕ} {s : JsString} (h : (r.test i s).1 = false) :
    (r.test (r.test i s).2 s).1 = (r.test 0 s).1 := by
  cases hstateful : r.stateful with
  | false => rw [(test_stateless hstateful i s).2,(test_stateless hstateful i s).1]
  | true =>
    have hzero : (r.test i s).2 = 0 := by
      simp only [test,hstateful,if_true] at h ⊢
      cases hexec : r.exec s i with
      | none => rfl
      | some e => simp [hexec] at h
    rw [hzero]

end RegExp

end RegExps
end Clearvoiance
