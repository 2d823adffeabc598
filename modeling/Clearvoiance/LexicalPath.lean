import Mathlib.Tactic

/-! Slash-separated paths as text.  Cleaning resolves the empty segments, `.` and `..` without looking at a file
system; joining puts a slash between the nonempty parts and cleans.  A last part that is a segment of its own
survives whatever the parts before it resolve to. -/
namespace Clearvoiance
namespace LexicalPath

abbrev Segment := List Char

def segments (p : List Char) : List Segment := p.splitOn '/'

/-- The segments that are left so far, last first; `..` removes one, and stays where there is nothing to remove. -/
def push (rooted : Bool) (stack : List Segment) (seg : Segment) : List Segment :=
  if seg = [] ∨ seg = ['.'] then stack
  else if seg = ['.','.'] then
    match stack with
    | [] => if rooted then [] else [seg]
    | top :: rest => if top = ['.','.'] then seg :: stack else rest
  else seg :: stack

def render (rooted : Bool) (segs : List Segment) : List Char :=
  if rooted then '/' :: ['/'].intercalate segs
  else if segs = [] then ['.'] else ['/'].intercalate segs

def isRooted (p : List Char) : Bool := p.head? = some '/'

def clean (p : List Char) : List Char :=
  render (isRooted p) ((segments p).foldl (push (isRooted p)) []).reverse

def join (parts : List (List Char)) : List Char :=
  if parts.filter (· ≠ []) = [] then [] else clean (['/'].intercalate (parts.filter (· ≠ [])))

def base (p : List Char) : Segment := (segments p).getLast?.getD []

structure Plain (seg : Segment) : Prop where
  nonempty : seg ≠ []
  dot : seg ≠ ['.']
  dots : seg ≠ ['.','.']
  slash : '/' ∉ seg

variable {seg : Segment} {stack : List Segment} {rooted : Bool}

theorem push_plain (h : Plain seg) : push rooted stack seg = seg :: stack := by
  unfold push
  rw [if_neg (by simp [h.nonempty,h.dot]),if_neg h.dots]

theorem foldl_push_plain {segs : List Segment} (h : ∀ s ∈ segs, Plain s) :
    segs.foldl (push rooted) stack = segs.reverse ++ stack := by
  induction segs generalizing stack with
  | nil => rfl
  | cons s segs ih =>
    rw [List.foldl_cons,push_plain (h s (by simp)),ih fun s hs => h s (by simp [hs])]
    simp

theorem segments_plain (h : Plain seg) : segments seg = [seg] := List.splitOn_eq_singleton h.slash

theorem segments_append (p : List Char) (h : Plain seg) : segments (p ++ '/' :: seg) = segments p ++ [seg] := by
  rw [segments,List.splitOn_append_cons_self]
  exact congrArg _ (segments_plain h)

theorem base_append (p : List Char) (h : Plain seg) : base (p ++ '/' :: seg) = seg := by
  rw [base,segments_append p h]
  simp

theorem intercalate_concat {segs : List Segment} (h : segs ≠ []) (seg : Segment) :
    ['/'].intercalate (segs ++ [seg]) = ['/'].intercalate segs ++ '/' :: seg := by
  induction segs with
  | nil => exact absurd rfl h
  | cons s segs ih =>
    rcases segs with _ | ⟨s',segs⟩
    · simp
    · rw [List.cons_append,List.cons_append,List.intercalate_cons_cons,← List.cons_append,ih (by simp),
        List.intercalate_cons_cons]
      simp

theorem base_render (segs : List Segment) (h : Plain seg) : base (render rooted (segs ++ [seg])) = seg := by
  have hne : segs ++ [seg] ≠ [] := by simp
  unfold render
  rw [if_neg hne]
  rcases List.eq_nil_or_concat segs with rfl | hsegs
  · rw [List.nil_append,List.intercalate_singleton]
    split_ifs
    · exact base_append [] h
    · rw [base,segments_plain h]
      rfl
  · have hsegs : segs ≠ [] := by
      obtain ⟨init,last,rfl⟩ := hsegs
      simp
    rw [intercalate_concat hsegs]
    split_ifs
    · exact base_append ('/' :: _) h
    · exact base_append _ h

theorem base_join (parts : List (List Char)) (h : Plain seg) : base (join (parts ++ [seg])) = seg := by
  have hfilter : (parts ++ [seg]).filter (· ≠ []) = parts.filter (· ≠ []) ++ [seg] := by
    simp [List.filter_append,h.nonempty]
  unfold join
  rw [hfilter,if_neg (by simp)]
  rcases eq_or_ne (parts.filter (· ≠ [])) [] with hnil | hne
  · rw [hnil,List.nil_append,List.intercalate_singleton,clean,segments_plain h,List.foldl_cons,List.foldl_nil,
      push_plain h,List.reverse_singleton]
    exact base_render [] h
  · rw [intercalate_concat hne,clean,segments_append _ h,List.foldl_append,List.foldl_cons,List.foldl_nil,
      push_plain h,List.reverse_cons]
    exact base_render _ h

theorem join_plain {parts : List Segment} (h : ∀ s ∈ parts, Plain s) : join parts = ['/'].intercalate parts := by
  have hfilter : parts.filter (· ≠ []) = parts := List.filter_eq_self.mpr fun s hs => by simpa using (h s hs).nonempty
  unfold join
  rw [hfilter]
  split_ifs with hnil
  · rw [hnil]
    rfl
  · have hsegments : segments (['/'].intercalate parts) = parts :=
      List.splitOn_intercalate _ (fun s hs => (h s hs).slash) hnil
    have hrooted : isRooted (['/'].intercalate parts) = false := by
      obtain ⟨s,rest,rfl⟩ := List.exists_cons_of_ne_nil hnil
      obtain ⟨c,cs,rfl⟩ := List.exists_cons_of_ne_nil (h s (by simp)).nonempty
      have hc : c ≠ '/' := fun hc => (h (c :: cs) (by simp)).slash (by simp [hc])
      cases rest <;> simp [isRooted,List.intercalate,hc]
    rw [clean,hsegments,hrooted,foldl_push_plain h,List.append_nil,List.reverse_reverse,render]
    simp [hnil]

theorem join_injective {parts parts' : List Segment} (h : ∀ s ∈ parts, Plain s) (h' : ∀ s ∈ parts', Plain s)
    (hne : parts ≠ []) (hne' : parts' ≠ []) (heq : join parts = join parts') : parts = parts' := by
  rw [join_plain h,join_plain h'] at heq
  rw [← List.splitOn_intercalate '/' (fun s hs => (h s hs).slash) hne,heq,
    List.splitOn_intercalate '/' (fun s hs => (h' s hs).slash) hne']

end LexicalPath
end Clearvoiance
