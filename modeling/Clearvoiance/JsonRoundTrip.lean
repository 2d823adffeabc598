import Clearvoiance.JsonEquality

/-! A printed document is read back.  The characters of the text may be coded in any way that leaves ASCII
alone; the printer's strings have to be lexed to items and its numbers to literals. -/
namespace Clearvoiance
namespace Json

variable {σ τ ν μ : Type}

mutual

def map (f : σ → τ) (g : ν → μ) : Json σ ν → Json τ μ
  | .null => .null
  | .bool b => .bool b
  | .num n => .num (g n)
  | .str s => .str (f s)
  | .arr vs => .arr (mapList f g vs)
  | .obj ms => .obj (mapMembers f g ms)
termination_by structural v => v

def mapList (f : σ → τ) (g : ν → μ) : List (Json σ ν) → List (Json τ μ)
  | [] => []
  | v :: vs => map f g v :: mapList f g vs
termination_by structural vs => vs

def mapMembers (f : σ → τ) (g : ν → μ) : List (σ × Json σ ν) → List (τ × Json τ μ)
  | [] => []
  | (k,v) :: ms => (f k,map f g v) :: mapMembers f g ms
termination_by structural ms => ms

end

theorem mapList_eq (f : σ → τ) (g : ν → μ) (vs : List (Json σ ν)) : mapList f g vs = vs.map (map f g) := by
  induction vs with
  | nil => rfl
  | cons v vs ih => rw [mapList,ih,List.map_cons]

theorem mapMembers_eq (f : σ → τ) (g : ν → μ) (ms : List (σ × Json σ ν)) :
    mapMembers f g ms = ms.map fun m => (f m.1,map f g m.2) := by
  induction ms with
  | nil => rfl
  | cons m ms ih => rw [mapMembers,ih,List.map_cons]

theorem map_map {σ' ν' : Type} (f : σ → τ) (g : ν → μ) (f' : τ → σ') (g' : μ → ν') (v : Json σ ν) :
    map f' g' (map f g v) = map (f' ∘ f) (g' ∘ g) v := by
  induction v using induction with
  | null => rfl
  | bool b => rfl
  | num x => rfl
  | str s => rfl
  | arr vs ih =>
    simp only [map,mapList_eq,List.map_map,Json.arr.injEq]
    exact List.map_congr_left ih
  | obj ms ih =>
    simp only [map,mapMembers_eq,List.map_map,Json.obj.injEq]
    exact List.map_congr_left fun m hm => by simp [ih m hm]

theorem convert_alike {f : σ → τ} {g : ν → Option μ} {v : Json σ ν} {w : Json τ μ}
    (h : convert f (fun x => (g x).map .num) v = some w) : Alike (fun s t => f s = t) (fun x y => g x = some y) v w := by
  induction v using induction generalizing w with
  | null =>
    cases h
    trivial
  | bool b =>
    cases h
    exact rfl
  | num x =>
    rw [convert,Option.map_eq_some_iff] at h
    obtain ⟨y,hy,rfl⟩ := h
    exact hy
  | str s =>
    cases h
    exact rfl
  | arr vs ih =>
    rw [convert,Option.map_eq_some_iff] at h
    obtain ⟨ws,hws,rfl⟩ := h
    induction vs generalizing ws with
    | nil =>
      cases hws
      trivial
    | cons v vs ihvs =>
      simp only [convertList,Option.bind_eq_bind,Option.bind_eq_some_iff,Option.pure_def,Option.some.injEq] at hws
      obtain ⟨w,hw,ws',hws',rfl⟩ := hws
      exact ⟨ih v (by simp) hw,ihvs (fun u hu => ih u (by simp [hu])) ws' hws'⟩
  | obj ms ih =>
    rw [convert,Option.map_eq_some_iff] at h
    obtain ⟨ns,hns,rfl⟩ := h
    induction ms generalizing ns with
    | nil =>
      cases hns
      trivial
    | cons m ms ihms =>
      obtain ⟨k,v⟩ := m
      simp only [convertMembers,Option.bind_eq_bind,Option.bind_eq_some_iff,Option.pure_def,Option.some.injEq] at hns
      obtain ⟨w,hw,ns',hns',rfl⟩ := hns
      exact ⟨rfl,ih (k,v) (by simp) hw,ihms (fun u hu => ih u (by simp [hu])) ns' hns'⟩

theorem convert_map {f : τ → σ} {g : μ → Option (Json σ ν)} {f' : σ → τ} {g' : ν → μ} (hf : ∀ s, f (f' s) = s)
    (hg : ∀ x, g (g' x) = some (.num x)) (v : Json σ ν) : convert f g (map f' g' v) = some v := by
  induction v using induction with
  | null => rfl
  | bool b => rfl
  | num x => exact hg x
  | str s => simp [map,convert,hf]
  | arr vs ih =>
    have hlist : convertList f g (mapList f' g' vs) = some vs := by
      induction vs with
      | nil => rfl
      | cons v vs ihvs =>
        rw [mapList,convertList,ih v (by simp),ihvs fun u hu => ih u (by simp [hu])]
        rfl
    rw [map,convert,hlist]
    rfl
  | obj ms ih =>
    have hmembers : convertMembers f g (mapMembers f' g' ms) = some ms := by
      induction ms with
      | nil => rfl
      | cons m ms ihms =>
        obtain ⟨k,v⟩ := m
        rw [mapMembers,convertMembers,ih (k,v) (by simp),ihms fun u hu => ih u (by simp [hu]),hf]
        rfl
    rw [map,convert,hmembers]
    rfl

theorem bind_map_num {f : μ → Json σ ν} {g : ν → μ} (hf : ∀ x, f (g x) = .num x) (v : Json σ ν) :
    bind f (map id g v) = v := by
  induction v using induction with
  | null => rfl
  | bool b => rfl
  | num x => exact hf x
  | str s => rfl
  | arr vs ih =>
    rw [map,bind,mapList_eq,bindList_eq,List.map_map]
    exact congrArg Json.arr ((List.map_congr_left ih).trans (List.map_id _))
  | obj ms ih =>
    rw [map,bind]
    congr 1
    induction ms with
    | nil => rfl
    | cons m ms ihms =>
      obtain ⟨k,v⟩ := m
      rw [mapMembers,bindMembers,ih (k,v) (by simp),ihms fun u hu => ih u (by simp [hu])]
      rfl

theorem convert_total (f : σ → τ) (g : ν → μ) (v : Json σ ν) :
    convert f (fun x => some (.num (g x))) v = some (map f g v) := by
  induction v using induction with
  | null => rfl
  | bool b => rfl
  | num x => rfl
  | str s => rfl
  | arr vs ih =>
    have hlist : convertList f (fun x => some (.num (g x))) vs = some (mapList f g vs) := by
      induction vs with
      | nil => rfl
      | cons v vs ihvs =>
        rw [mapList,convertList,ih v (by simp),ihvs fun u hu => ih u (by simp [hu])]
        rfl
    rw [map,convert,hlist]
    rfl
  | obj ms ih =>
    have hmembers : convertMembers f (fun x => some (.num (g x))) ms = some (mapMembers f g ms) := by
      induction ms with
      | nil => rfl
      | cons m ms ihms =>
        rw [mapMembers,convertMembers,ih m (by simp),ihms fun u hu => ih u (by simp [hu])]
        rfl
    rw [map,convert,hmembers]
    rfl

theorem map_alike {rs : τ → σ → Prop} {rn : μ → ν → Prop} {f : σ → τ} {g : ν → μ} (hs : ∀ s, rs (f s) s)
    (hn : ∀ x, rn (g x) x) (v : Json σ ν) : Alike rs rn (map f g v) v := by
  induction v using induction with
  | null => trivial
  | bool b => exact rfl
  | num x => exact hn x
  | str s => exact hs s
  | arr vs ih =>
    rw [map,Alike]
    induction vs with
    | nil => trivial
    | cons v vs ihvs => exact ⟨ih v (by simp),ihvs fun u hu => ih u (by simp [hu])⟩
  | obj ms ih =>
    rw [map,Alike]
    induction ms with
    | nil => trivial
    | cons m ms ihms =>
      obtain ⟨k,v⟩ := m
      exact ⟨hs k,ih (k,v) (by simp),ihms fun u hu => ih u (by simp [hu])⟩

mutual

def tokens : Raw → List Token
  | .null => [.null]
  | .bool b => [.bool b]
  | .num l => [.num l]
  | .str items => [.str items]
  | .arr vs => .lbracket :: [Token.comma].intercalate (tokensList vs) ++ [.rbracket]
  | .obj ms => .lbrace :: [Token.comma].intercalate (tokensMembers ms) ++ [.rbrace]
termination_by structural v => v

def tokensList : List Raw → List (List Token)
  | [] => []
  | v :: vs => tokens v :: tokensList vs
termination_by structural vs => vs

def tokensMembers : List (List Item × Raw) → List (List Token)
  | [] => []
  | (k,v) :: ms => (.str k :: .colon :: tokens v) :: tokensMembers ms
termination_by structural ms => ms

end

theorem intercalate_eq {α : Type} (sep : α) (piece : List α) (pieces : List (List α)) :
    [sep].intercalate (piece :: pieces) = piece ++ pieces.flatMap fun p => sep :: p := by
  induction pieces generalizing piece with
  | nil => simp
  | cons p pieces ih => rw [List.intercalate_cons_cons,ih]; simp

def Plain (code : Char → List ℕ) : Prop := ∀ c : Char, c.toNat < 0x80 → code c = [c.toNat]

/-- How a printer's strings and numbers are lexed, with its characters coded by `code`. -/
structure Reading (p : Printer σ ν) (code : Char → List ℕ) where
  items : σ → List Item
  literal : ν → Literal
  plain : Plain code
  string : ∀ s acc rest, lex (.str acc) ((p.string s).flatMap code ++ rest) = lex (.str ((items s).reverse ++ acc)) rest
  number : ∀ n, classify ((p.number n).map Char.toNat) = some (.num (literal n))

def Reading.raw {p : Printer σ ν} {code : Char → List ℕ} (rd : Reading p code) (v : Json σ ν) : Raw :=
  map rd.items rd.literal v

/-- A text that does not go on with a word. -/
def Boundary (r : List ℕ) : Prop := ∀ n t, r = n :: t → isWordCode n = false

theorem boundary_nil : Boundary [] := nofun

theorem boundary_cons {n : ℕ} (h : isWordCode n = false) (t : List ℕ) : Boundary (n :: t) := by
  rintro m u hm
  obtain ⟨rfl,-⟩ := List.cons.inj hm
  exact h

theorem lex_word_boundary {w : List ℕ} {r : List ℕ} (hr : Boundary r) :
    lex (.word w) r = (classify w.reverse).bind fun t => (lex .idle r).map (t :: ·) := by
  cases r with
  | nil =>
    simp only [lex]
    cases classify w.reverse <;> rfl
  | cons n r =>
    rw [lex,lex]
    simp only [lexStep,hr n r rfl,Bool.false_eq_true,if_false,Option.bind_eq_bind]
    cases classify w.reverse with
    | none => rfl
    | some t =>
      simp only [Option.bind_some]
      cases lexIdle n with
      | none => rfl
      | some st =>
        simp only [Option.bind_some,Option.pure_def]
        cases lex st.1 r <;> rfl

theorem lex_word_append {w t r : List ℕ} (ht : ∀ n ∈ t, isWordCode n = true) :
    lex (.word w) (t ++ r) = lex (.word (t.reverse ++ w)) r := by
  induction t generalizing w with
  | nil => rfl
  | cons n t ih =>
    have hstep : lexStep (.word w) n = some (.word (n :: w),[]) := by simp [lexStep,ht n (by simp)]
    rw [List.cons_append,lex,hstep]
    simp only [Option.bind_eq_bind,Option.bind_some,List.nil_append]
    rw [ih fun m hm => ht m (by simp [hm])]
    simp

theorem lex_word {n : ℕ} {t r : List ℕ} {token : Token} (hstart : lexIdle n = some (.word [n],[]))
    (ht : ∀ m ∈ t, isWordCode m = true) (hc : classify (n :: t) = some token) (hr : Boundary r) :
    lex .idle (n :: t ++ r) = (lex .idle r).map (token :: ·) := by
  rw [List.cons_append,lex,lexStep,hstart]
  simp only [Option.bind_eq_bind,Option.bind_some,List.nil_append]
  rw [lex_word_append ht,lex_word_boundary hr]
  simp [hc]

theorem lex_punctuation {n : ℕ} {t : Token} (h : lexIdle n = some (.idle,[t])) (r : List ℕ) :
    lex .idle (n :: r) = (lex .idle r).map (t :: ·) := by
  rw [lex,lexStep,h]
  simp only [Option.bind_eq_bind,Option.bind_some]
  cases lex .idle r <;> rfl

theorem isWordCode_of_isNumberChar {c : Char} (h : isNumberChar c = true) : isWordCode c.toNat = true := by
  simp only [isNumberChar,Bool.or_eq_true,decide_eq_true_eq] at h
  rcases h with (((h | rfl) | rfl) | rfl) | rfl
  · simp only [Char.isDigit,Bool.and_eq_true,decide_eq_true_eq] at h
    have hlow : 0x30 ≤ c.toNat := UInt32.le_iff_toNat_le.mp h.1
    have hhigh : c.toNat ≤ 0x39 := UInt32.le_iff_toNat_le.mp h.2
    simp [isWordCode,isDigit,hlow,hhigh]
  all_goals rfl

theorem lt_of_isWordCode {n : ℕ} (h : isWordCode n = true) : n < 0x80 := by
  simp only [isWordCode,isDigit,isLetter,Bool.or_eq_true,Bool.and_eq_true,decide_eq_true_eq] at h
  omega

theorem lexIdle_word {n : ℕ} (h : isWordCode n = true) : lexIdle n = some (.word [n],[]) := by
  have hspace : isSpace n = false := by
    simp only [isWordCode,isDigit,isLetter,Bool.or_eq_true,Bool.and_eq_true,decide_eq_true_eq] at h
    simp only [isSpace,Bool.or_eq_false_iff,decide_eq_false_iff_not]
    omega
  have hquote : n ≠ 0x22 := by
    rintro rfl
    cases h
  simp [lexIdle,hspace,hquote,h]

section Reading

variable {p : Printer σ ν} {code : Char → List ℕ}

theorem Plain.flatMap_word (hcode : Plain code) {t : List Char} (ht : ∀ c ∈ t, isWordCode c.toNat = true) :
    t.flatMap code = t.map Char.toNat := by
  induction t with
  | nil => rfl
  | cons c t ih =>
    rw [List.flatMap_cons,hcode c (lt_of_isWordCode (ht c (by simp))),ih fun d hd => ht d (by simp [hd])]
    rfl

theorem Plain.lex_text (hcode : Plain code) {t : List Char} {token : Token} (hne : t ≠ [])
    (ht : (t.all fun c => isWordCode c.toNat) = true)
    (hc : classify (t.map Char.toNat) = some token) {r : List ℕ} (hr : Boundary r) :
    lex .idle (t.flatMap code ++ r) = (lex .idle r).map (token :: ·) := by
  have hword : ∀ c ∈ t, isWordCode c.toNat = true := List.all_eq_true.mp ht
  rw [hcode.flatMap_word hword]
  obtain ⟨c,t,rfl⟩ := List.exists_cons_of_ne_nil hne
  refine lex_word (lexIdle_word (hword c (by simp))) (fun m hm => ?_) hc hr
  obtain ⟨d,hd,rfl⟩ := List.mem_map.mp hm
  exact hword d (by simp [hd])

theorem Reading.lex_quoted (rd : Reading p code) (s : σ) (r : List ℕ) :
    lex .idle ((quoted (p.string s)).flatMap code ++ r) = (lex .idle r).map (.str (rd.items s) :: ·) := by
  have hquote : code '"' = [0x22] := rd.plain '"' (by decide)
  simp only [quoted,List.cons_append,List.flatMap_cons,List.flatMap_append,List.flatMap_nil,hquote,List.append_nil,
    List.nil_append,List.append_assoc]
  rw [lex]
  change (lex (.str []) ((p.string s).flatMap code ++ 0x22 :: r)).bind (fun rest => some ([] ++ rest)) = _
  rw [rd.string,lex]
  simp only [lexStep,if_true,List.append_nil,List.reverse_reverse,Option.bind_eq_bind,Option.bind_some]
  cases lex .idle r <;> rfl

theorem Plain.lex_char (hcode : Plain code) {c : Char} {token : Token} (hc : c.toNat < 0x80)
    (h : lexIdle c.toNat = some (.idle,[token])) (r : List ℕ) :
    lex .idle (code c ++ r) = (lex .idle r).map (token :: ·) := by
  rw [hcode c hc]
  exact lex_punctuation h r

/-- Pieces behind commas, each of which is lexed to its tokens. -/
theorem Plain.lex_pieces (hcode : Plain code) {pieces : List (List Char × List Token)}
    (h : ∀ q ∈ pieces, ∀ r, Boundary r → lex .idle (q.1.flatMap code ++ r) = (lex .idle r).map (q.2 ++ ·))
    {r : List ℕ} (hr : Boundary r) :
    lex .idle (((pieces.map Prod.fst).flatMap fun piece => ',' :: piece).flatMap code ++ r) =
      (lex .idle r).map (((pieces.map Prod.snd).flatMap fun ts => .comma :: ts) ++ ·) ∧
    Boundary (((pieces.map Prod.fst).flatMap fun piece => ',' :: piece).flatMap code ++ r) := by
  have hcomma : code ',' = [0x2C] := hcode ',' (by decide)
  induction pieces with
  | nil => exact ⟨by simp,hr⟩
  | cons q pieces ih =>
    obtain ⟨hlex,hboundary⟩ := ih fun q' hq' => h q' (by simp [hq'])
    simp only [List.map_cons,List.flatMap_cons,List.cons_append,List.flatMap_append,hcomma,List.nil_append,
      List.append_assoc]
    refine ⟨?_,boundary_cons rfl _⟩
    rw [lex_punctuation (t := .comma) rfl,h q (by simp) _ hboundary,hlex,Option.map_map,Option.map_map]
    rfl

theorem Plain.lex_enclosed (hcode : Plain code) {pieces : List (List Char × List Token)}
    (h : ∀ q ∈ pieces, ∀ r, Boundary r → lex .idle (q.1.flatMap code ++ r) = (lex .idle r).map (q.2 ++ ·))
    {c : Char} {token : Token} (hclose : c.toNat < 0x80) (hword : isWordCode c.toNat = false)
    (htoken : lexIdle c.toNat = some (.idle,[token])) (r : List ℕ) :
    lex .idle (([','].intercalate (pieces.map Prod.fst)).flatMap code ++ (code c ++ r)) =
      (lex .idle r).map (([Token.comma].intercalate (pieces.map Prod.snd) ++ [token]) ++ ·) := by
  have hb : Boundary (code c ++ r) := by
    rw [hcode c hclose]
    exact boundary_cons hword _
  cases pieces with
  | nil =>
    simp only [List.map_nil,List.intercalate_nil,List.flatMap_nil,List.nil_append]
    rw [hcode.lex_char hclose htoken]
    rfl
  | cons q pieces =>
    have htail : ∀ q' ∈ pieces, ∀ r, Boundary r →
        lex .idle (q'.1.flatMap code ++ r) = (lex .idle r).map (q'.2 ++ ·) := fun q' hq' => h q' (by simp [hq'])
    obtain ⟨hlex,hboundary⟩ := hcode.lex_pieces htail hb
    simp only [List.map_cons,intercalate_eq,List.flatMap_append,List.append_assoc]
    rw [h q (by simp) _ hboundary,hlex,hcode.lex_char hclose htoken,Option.map_map,Option.map_map]
    simp [Function.comp_def]

theorem printList_eq (vs : List (Json σ ν)) : printList p vs = vs.map (print p) := by
  induction vs with
  | nil => rfl
  | cons v vs ih => rw [printList,ih,List.map_cons]

theorem printMembers_eq (ms : List (σ × Json σ ν)) :
    printMembers p ms = ms.map fun m => quoted (p.string m.1) ++ ':' :: print p m.2 := by
  induction ms with
  | nil => rfl
  | cons m ms ih => rw [printMembers,ih,List.map_cons]

theorem tokensList_eq (vs : List Raw) : tokensList vs = vs.map tokens := by
  induction vs with
  | nil => rfl
  | cons v vs ih => rw [tokensList,ih,List.map_cons]

theorem tokensMembers_eq (ms : List (List Item × Raw)) :
    tokensMembers ms = ms.map fun m => .str m.1 :: .colon :: tokens m.2 := by
  induction ms with
  | nil => rfl
  | cons m ms ih => rw [tokensMembers,ih,List.map_cons]

theorem Reading.lex_print (rd : Reading p code) (v : Json σ ν) (r : List ℕ) (hr : Boundary r) :
    lex .idle ((print p v).flatMap code ++ r) = (lex .idle r).map (tokens (rd.raw v) ++ ·) := by
  induction v using induction generalizing r with
  | null => exact rd.plain.lex_text (by simp [print]) rfl rfl hr
  | bool b =>
    cases b
    · exact rd.plain.lex_text (by simp [print]) rfl rfl hr
    · exact rd.plain.lex_text (by simp [print]) rfl rfl hr
  | num n =>
    obtain ⟨c,t,ht,-⟩ := (p.number_text n).start
    refine rd.plain.lex_text (by simp [ht]) (List.all_eq_true.mpr fun d hd => ?_) (rd.number n) hr
    exact isWordCode_of_isNumberChar ((p.number_text n).all d (by simpa [print] using hd))
  | str s =>
    rw [print]
    exact rd.lex_quoted s r
  | arr vs ih =>
    have hopen : code '[' = [0x5B] := rd.plain '[' (by decide)
    have hpieces : ∀ q ∈ vs.map fun v => (print p v,tokens (rd.raw v)), ∀ r, Boundary r →
        lex .idle (q.1.flatMap code ++ r) = (lex .idle r).map (q.2 ++ ·) := by
      intro q hq r hr
      obtain ⟨v,hv,rfl⟩ := List.mem_map.mp hq
      exact ih v hv r hr
    have hinside := rd.plain.lex_enclosed hpieces (c := ']') (by decide) rfl (by rfl) r
    rw [List.map_map,List.map_map] at hinside
    simp only [print,printList_eq,List.cons_append,List.flatMap_cons,List.flatMap_append,List.flatMap_nil,
      List.append_nil,List.append_assoc,hopen,List.nil_append]
    rw [lex_punctuation (t := .lbracket) rfl]
    refine (congrArg (Option.map (Token.lbracket :: ·)) hinside).trans ?_
    rw [Option.map_map,Reading.raw,map,mapList_eq,tokens,tokensList_eq,List.map_map]
    rfl
  | obj ms ih =>
    have hopen : code (Char.ofNat 0x7B) = [0x7B] := rd.plain _ (by decide)
    have hcolon : code ':' = [0x3A] := rd.plain ':' (by decide)
    have hpieces : ∀ q ∈ ms.map fun m => (quoted (p.string m.1) ++ ':' :: print p m.2,
        .str (rd.items m.1) :: .colon :: tokens (rd.raw m.2)), ∀ r, Boundary r →
        lex .idle (q.1.flatMap code ++ r) = (lex .idle r).map (q.2 ++ ·) := by
      intro q hq r hr
      obtain ⟨m,hm,rfl⟩ := List.mem_map.mp hq
      simp only [List.flatMap_append,List.flatMap_cons,hcolon,List.append_assoc,List.cons_append,List.nil_append]
      rw [rd.lex_quoted,lex_punctuation (t := .colon) rfl,ih m hm r hr,Option.map_map,Option.map_map]
      rfl
    have hinside := rd.plain.lex_enclosed hpieces (c := Char.ofNat 0x7D) (by decide) rfl (by rfl) r
    rw [List.map_map,List.map_map] at hinside
    simp only [print,printMembers_eq,List.cons_append,List.flatMap_cons,List.flatMap_append,List.flatMap_nil,
      List.append_nil,List.append_assoc,hopen,List.nil_append]
    rw [lex_punctuation (t := .lbrace) rfl]
    refine (congrArg (Option.map (Token.lbrace :: ·)) hinside).trans ?_
    rw [Option.map_map,Reading.raw,map,mapMembers_eq,tokens,tokensMembers_eq,List.map_map]
    rfl

end Reading

/-- What is complete below the stack is what the next token meets. -/
theorem parseStep_start {st : List (Frame (List Item) Literal)} {t : Token} (ht : t ≠ .rbracket) :
    parseStep (.want .valueOrClose st) t = parseStep (.want .value st) t := by
  cases st with
  | nil => cases t <;> simp_all [parseStep]
  | cons f st => cases f <;> cases t <;> simp_all [parseStep]

theorem tokens_start (v : Raw) : ∃ t ts, tokens v = t :: ts ∧ t ≠ .rbracket := by
  cases v with
  | arr vs => exact ⟨.lbracket,_,by rw [tokens]; rfl,by simp⟩
  | obj ms => exact ⟨.lbrace,_,by rw [tokens]; rfl,by simp⟩
  | _ => exact ⟨_,[],by rw [tokens],by simp⟩

section Parse

/-- The parser takes the tokens of a document for the document. -/
def Taken (v : Raw) : Prop := ∀ st rest, (tokens v ++ rest).foldlM parseStep (.want .value st) =
  (complete v st).bind fun s => rest.foldlM parseStep s

theorem Taken.first {v : Raw} (h : Taken v) (st : List (Frame (List Item) Literal)) (rest : List Token) :
    (tokens v ++ rest).foldlM parseStep (.want .valueOrClose st) =
      (complete v st).bind fun s => rest.foldlM parseStep s := by
  obtain ⟨t,ts,hv,ht⟩ := tokens_start v
  rw [← h st rest,hv,List.cons_append,List.foldlM_cons,List.foldlM_cons,parseStep_start ht]

theorem elements_taken {vs : List Raw} (h : ∀ v ∈ vs, Taken v) (acc : List Raw)
    (st : List (Frame (List Item) Literal)) (rest : List Token) :
    (((vs.map tokens).flatMap fun ts => .comma :: ts) ++ .rbracket :: rest).foldlM parseStep
        (.want .separator (.arr acc :: st)) =
      (complete (.arr (acc.reverse ++ vs)) st).bind fun s => rest.foldlM parseStep s := by
  induction vs generalizing acc with
  | nil => simp [parseStep]
  | cons v vs ih =>
    simp only [List.map_cons,List.flatMap_cons,List.cons_append,List.append_assoc,List.foldlM_cons]
    change ((tokens v ++ _).foldlM parseStep (.want .value (.arr acc :: st))) = _
    rw [h v (by simp)]
    change List.foldlM parseStep (.want .separator (.arr (v :: acc) :: st)) _ = _
    rw [ih fun w hw => h w (by simp [hw])]
    simp

theorem members_taken {ms : List (List Item × Raw)} (h : ∀ m ∈ ms, Taken m.2) (acc : List (List Item × Raw))
    (st : List (Frame (List Item) Literal)) (rest : List Token) :
    (((ms.map fun m => .str m.1 :: .colon :: tokens m.2).flatMap fun ts => .comma :: ts) ++
        .rbrace :: rest).foldlM parseStep (.want .separator (.obj acc :: st)) =
      (complete (.obj (acc.reverse ++ ms)) st).bind fun s => rest.foldlM parseStep s := by
  induction ms generalizing acc with
  | nil => simp [parseStep]
  | cons m ms ih =>
    simp only [List.map_cons,List.flatMap_cons,List.cons_append,List.append_assoc,List.foldlM_cons]
    change ((tokens m.2 ++ _).foldlM parseStep (.want .value (.member acc m.1 :: st))) = _
    rw [h m (by simp)]
    change List.foldlM parseStep (.want .separator (.obj (m :: acc) :: st)) _ = _
    rw [ih fun w hw => h w (by simp [hw])]
    simp

theorem taken (v : Raw) : Taken v := by
  induction v using induction with
  | null => exact fun st rest => rfl
  | bool b => exact fun st rest => rfl
  | num n => exact fun st rest => rfl
  | str s => exact fun st rest => rfl
  | arr vs ih =>
    intro st rest
    rw [tokens,tokensList_eq]
    cases vs with
    | nil => rfl
    | cons v vs =>
      rw [List.map_cons,intercalate_eq]
      simp only [List.cons_append,List.append_assoc,List.nil_append,List.foldlM_cons]
      change ((tokens v ++ _).foldlM parseStep (.want .valueOrClose (.arr [] :: st))) = _
      rw [(ih v (by simp)).first]
      exact elements_taken (fun w hw => ih w (by simp [hw])) [v] st rest
  | obj ms ih =>
    intro st rest
    rw [tokens,tokensMembers_eq]
    cases ms with
    | nil => rfl
    | cons m ms =>
      rw [List.map_cons,intercalate_eq]
      simp only [List.cons_append,List.append_assoc,List.nil_append,List.foldlM_cons]
      change ((tokens m.2 ++ _).foldlM parseStep (.want .value (.member [] m.1 :: st))) = _
      rw [ih m (by simp)]
      exact members_taken (fun w hw => ih w (by simp [hw])) [m] st rest

theorem parse_of_lex {text : List ℕ} {v : Raw} (h : lex .idle text = some (tokens v)) : parse text = some v := by
  have hv := taken v [] []
  rw [List.append_nil] at hv
  simp only [parse,h,Option.bind_eq_bind,Option.bind_some]
  rw [hv]
  rfl

theorem Reading.parse_print {p : Printer σ ν} {code : Char → List ℕ} (rd : Reading p code) (v : Json σ ν) :
    parse ((print p v).flatMap code) = some (rd.raw v) := by
  apply parse_of_lex
  have hlex := rd.lex_print v [] boundary_nil
  rw [List.append_nil] at hlex
  rw [hlex]
  simp [lex]

end Parse

end Json
end Clearvoiance
