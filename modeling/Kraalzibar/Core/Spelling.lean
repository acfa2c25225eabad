import Kraalzibar.Core.Grammar
import Kraalzibar.Foundations.PegRules

/-!
# Spelling tokens

A text spells a sequence of tokens when something is between every two of them, white
space or newline-terminated comments.  The grammar finds the same tokens in all the
texts that spell them.

* `Filler`, `Spells` — what may stand between tokens, and the texts of a sequence;
* `skip_filler` — the implicit rules pass over a filler, up to the next token;
* `spelling` — the texts of tokens as a `Scan`, with what the lexical rules read there.
-/

namespace Kraalzibar

open Foundations Peg

/-- White space, and comments with the newline that ends them. -/
inductive Filler : List Char → Prop
  | nil : Filler []
  | blank {c : Char} {rest : List Char} (hc : c ∈ [' ', '\t', '\n', '\r'])
      (h : Filler rest) : Filler (c :: rest)
  | comment {body : List Char} {c : Char} {rest : List Char}
      (hbody : ∀ d ∈ body, d ∉ ['\n', '\r']) (hc : c ∈ ['\n', '\r']) (h : Filler rest) :
      Filler ('/' :: '/' :: (body ++ c :: rest))

/-- The text after a token and before the tokens `ts`. -/
inductive AfterToken : List String → List Char → Prop
  | done {text : List Char} (h : Filler text) : AfterToken [] text
  | next {sep : List Char} {t : String} {ts : List String} {rest : List Char}
      (hsep : Filler sep) (hne : sep ≠ []) (h : AfterToken ts rest) :
      AfterToken (t :: ts) (sep ++ (t.toList ++ rest))

/-- The text starts with the first of the tokens `ts`. -/
def Starts : List String → List Char → Prop
  | [], text => text = []
  | t :: ts, text => ∃ rest, text = t.toList ++ rest ∧ AfterToken ts rest

/-- The text is that of the tokens, with a filler between every two of them, and maybe
one before the first and after the last. -/
def Spells (ts : List String) (text : String) : Prop :=
  ∃ filler start, Filler filler ∧ Starts ts start ∧ text.toList = filler ++ start

/-- `ASCII_ALPHA ~ (ASCII_ALPHANUMERIC | "_")*` -/
def IsIdentifier (name : String) : Prop :=
  ∃ c cs, name.toList = c :: cs ∧ Grammar.isAsciiAlpha c = true ∧
    ∀ d ∈ cs, Grammar.isAsciiAlphanumeric d = true ∨ d = '_'

instance (name : String) : Decidable (IsIdentifier name) :=
  match hname : name.toList with
  | [] => .isFalse fun ⟨_, _, hcons, _⟩ => List.cons_ne_nil _ _ (hcons.symm.trans hname)
  | c :: cs =>
      decidable_of_iff (Grammar.isAsciiAlpha c = true ∧
          cs.all (fun d => Grammar.isAsciiAlphanumeric d || d == '_') = true) <| by
        simp only [List.all_eq_true, Bool.or_eq_true, beq_iff_eq]
        constructor
        · exact fun h => ⟨c, cs, hname, h⟩
        · rintro ⟨c', cs', hcons, h⟩
          obtain ⟨rfl, rfl⟩ := List.cons.inj (hname.symm.trans hcons)
          exact h

/-- The tokens with one space between every two of them. -/
def oneSpace : List String → List Char
  | [] => []
  | t :: ts => t.toList ++ ts.flatMap fun t => ' ' :: t.toList

theorem spells_oneSpace (ts : List String) : Spells ts (String.ofList (oneSpace ts)) := by
  have hafter : ∀ ts : List String, AfterToken ts (ts.flatMap fun t => ' ' :: t.toList) := by
    intro ts
    induction ts with
    | nil => exact .done .nil
    | cons t ts ih => exact .next (.blank (.head _) .nil) (List.cons_ne_nil ' ' []) ih
  refine ⟨[], oneSpace ts, .nil, ?_, String.toList_ofList⟩
  cases ts with
  | nil => rfl
  | cons t ts => exact ⟨_, rfl, hafter ts⟩

/-! ## Passing over fillers -/

/-- The characters with which a filler can start. -/
def fillerStarts : List Char :=
  [' ', '\t', '\n', '\r', '/']

/-- No filler starts here. -/
def Stops (text : List Char) : Prop :=
  ∀ c ∈ text.head?, c ∉ fillerStarts

theorem Filler.head {text : List Char} (h : Filler text) :
    ∀ c ∈ text.head?, c ∈ fillerStarts := by
  cases h with
  | nil => nofun
  | blank hc _ =>
      intro c h
      obtain rfl := Option.some.inj h
      exact List.mem_append_left ['/'] hc
  | comment _ _ _ =>
      intro c h
      obtain rfl := Option.some.inj h
      decide

section

variable {start text rest : List Char}

/-- A literal of one character. -/
theorem refuses_char {skip : Input → Input} {inAtomic : Bool} {literal : String} {c : Char}
    (hliteral : literal.toList.head? = some c) (h : ∀ d ∈ text.head?, d ≠ c) :
    Refuses skip inAtomic (.str literal : Expr Rule) text := by
  refine .str ?_
  rintro ⟨rest, rfl⟩
  rw [List.head?_append, hliteral] at h
  exact h c rfl rfl

theorem refuses_newline {inAtomic : Bool} (h : ∀ c ∈ text.head?, c ∉ ['\n', '\r']) :
    Refuses id inAtomic Grammar.newline text := by
  refine .choice (refuses_char rfl ?_) (.choice (refuses_char rfl ?_) (refuses_char rfl ?_))
  all_goals
    intro c hc hne
    exact h c hc (by rw [hne]; decide)

theorem refuses_whitespace (h : ∀ c ∈ text.head?, c ∉ [' ', '\t', '\n', '\r']) :
    Refuses id true Grammar.whitespace text := by
  refine .silent (.choice (refuses_char rfl ?_) (.choice (refuses_char rfl ?_)
    (refuses_newline ?_)))
  · intro c hc hne
    exact h c hc (by rw [hne]; decide)
  · intro c hc hne
    exact h c hc (by rw [hne]; decide)
  · intro c hc hmem
    exact h c hc (List.mem_of_mem_drop (i := 2) hmem)

theorem refuses_cons {skip : Input → Input} {inAtomic : Bool} {literal : String} {c d : Char}
    (hliteral : literal.toList.head? = some c) (hne : d ≠ c) :
    Refuses skip inAtomic (.str literal : Expr Rule) (d :: text) :=
  refuses_char hliteral fun _ h => Option.some.inj h ▸ hne

theorem parses_str {skip : Input → Input} {inAtomic : Bool} {literal : String}
    {cs : List Char} (h : literal.toList = cs) :
    Parses skip inAtomic (.str literal : Expr Rule) (cs ++ rest) [] rest := by
  rw [← h]
  exact .str literal

/-- A newline is one character, or two if the second one makes it one newline. -/
theorem parses_newline {inAtomic : Bool} {c : Char} (hc : c ∈ ['\n', '\r']) :
    ∃ rest, Parses id inAtomic Grammar.newline (c :: text) [] rest ∧
      (rest = text ∨ text = '\n' :: rest) := by
  rcases List.mem_pair.mp hc with rfl | rfl
  · exact ⟨text, .choice_left (parses_str rfl), Or.inl rfl⟩
  · by_cases hpair : text.head? = some '\n'
    · obtain ⟨rest, rfl⟩ := List.head?_eq_some_iff.mp hpair
      exact ⟨rest, .choice_right (refuses_cons rfl (by decide))
        (.choice_left (parses_str rfl)), Or.inr rfl⟩
    · refine ⟨text, .choice_right (refuses_cons rfl (by decide))
        (.choice_right (.str ?_) (parses_str rfl)), Or.inl rfl⟩
      rintro ⟨rest, hrest⟩
      have hrest : '\r' :: ('\n' :: rest) = '\r' :: text := hrest
      rw [← (List.cons.inj hrest).2] at hpair
      exact hpair rfl

/-- One white space character is passed over, or two that make one newline. -/
theorem Filler.whitespace (hstart : Stops start) {c : Char}
    (hc : c ∈ [' ', '\t', '\n', '\r']) (h : Filler text) :
    ∃ text', Filler text' ∧ text'.length < (c :: text).length ∧
      Parses id true Grammar.whitespace (c :: text ++ start) [] (text' ++ start) := by
  have hself : text.length < (c :: text).length := Nat.lt_succ_self _
  rcases List.mem_cons.mp hc with rfl | hc
  · exact ⟨text, h, hself, .silent (.choice_left (parses_str rfl))⟩
  rcases List.mem_cons.mp hc with rfl | hc
  · exact ⟨text, h, hself, .silent (.choice_right (refuses_cons rfl (by decide))
      (.choice_left (parses_str rfl)))⟩
  have hreturn : ∀ {rest' : List Char},
      Parses id true Grammar.newline (c :: text ++ start) [] rest' →
      Parses id true Grammar.whitespace (c :: text ++ start) [] rest' := by
    intro rest' hparses
    refine .silent (.choice_right (refuses_cons rfl ?_)
      (.choice_right (refuses_cons rfl ?_) hparses))
    all_goals
      rintro rfl
      exact absurd hc (by decide)
  obtain ⟨rest', hparses, rfl | htwo⟩ := @parses_newline (text ++ start) true c hc
  · exact ⟨text, h, hself, hreturn hparses⟩
  · -- the second character is the filler's own, because none starts after it
    have hhead : (text ++ start).head? = some '\n' := by
      rw [htwo]
      rfl
    cases h with
    | nil => exact absurd (by decide) (hstart _ hhead)
    | @blank d text' _ h' =>
        obtain ⟨-, rfl⟩ := List.cons.inj htwo
        refine ⟨text', h', ?_, hreturn hparses⟩
        simp only [List.length_cons]
        omega
    | comment _ _ _ => exact absurd (Option.some.inj hhead) (by decide)

/-- The white space of a filler is passed over, up to a comment or the end. -/
theorem Filler.whitespaces (hstart : Stops start) (h : Filler text) :
    ∃ text', Filler text' ∧ text'.length ≤ text.length ∧
      (∀ c ∈ (text' ++ start).head?, c ∉ [' ', '\t', '\n', '\r']) ∧
      Rounds id true Grammar.whitespace (text ++ start) [] (text' ++ start) := by
  induction hlength : text.length using Nat.strongRecOn generalizing text with
  | ind n ih =>
      subst hlength
      have hstop : ∀ text, (∀ c ∈ (text ++ start).head?, c ∉ [' ', '\t', '\n', '\r']) →
          Rounds id true Grammar.whitespace (text ++ start) [] (text ++ start) :=
        fun _ hhead => .stop fun position => refuses_whitespace hhead position
      cases h with
      | nil =>
          have hhead : ∀ c ∈ start.head?, c ∉ [' ', '\t', '\n', '\r'] :=
            fun c hc hmem => hstart c hc (List.mem_append_left ['/'] hmem)
          exact ⟨[], .nil, Nat.le_refl _, hhead, hstop [] hhead⟩
      | blank hc h =>
          obtain ⟨mid, hmid, hshorter, hparses⟩ := h.whitespace hstart hc
          obtain ⟨text', htext', hle, hhead, hrounds⟩ := ih _ hshorter hmid rfl
          refine ⟨text', htext', by omega, hhead, .round .atomic hparses ?_ hrounds⟩
          simp only [List.length_append]
          omega
      | comment hbody hc h =>
          refine ⟨_, .comment hbody hc h, Nat.le_refl _, ?_, hstop _ ?_⟩
          all_goals
            intro c hc
            obtain rfl := Option.some.inj hc
            decide

/-- A comment is passed over, up to the newline that ends it. -/
theorem parses_comment {body : List Char} {c : Char} (hbody : ∀ d ∈ body, d ∉ ['\n', '\r'])
    (hc : c ∈ ['\n', '\r']) :
    Parses id true Grammar.comment ('/' :: '/' :: (body ++ c :: rest)) [] (c :: rest) := by
  have hrounds : Rounds id true (.seq (.not Grammar.newline) (.satisfy fun _ => true))
      (body ++ c :: rest) [] (c :: rest) := by
    induction body with
    | nil =>
        obtain ⟨rest', hnewline, -⟩ := @parses_newline rest true c hc
        exact .stop fun position => Refuses.seq_left (.not hnewline) position
    | cons d body ih =>
        have hd : Refuses id true Grammar.newline (d :: (body ++ c :: rest)) :=
          refuses_newline fun d' h => Option.some.inj h ▸ hbody d List.mem_cons_self
        refine .round .atomic (.seq (.not hd) .atomic (.satisfy rfl)) ?_
          (ih fun d' hd' => hbody d' (List.mem_cons_of_mem d hd'))
        simp
  exact .silent (.seq (parses_str rfl) .atomic hrounds.star)

/-- The comments of a filler are passed over, each with the white space after it. -/
theorem Filler.comments (hstart : Stops start) (h : Filler text)
    (hhead : ∀ c ∈ (text ++ start).head?, c ∉ [' ', '\t', '\n', '\r']) :
    Rounds id true (.seq Grammar.comment (.star Grammar.whitespace)) (text ++ start) []
      start := by
  induction hlength : text.length using Nat.strongRecOn generalizing text with
  | ind n ih =>
      subst hlength
      cases h with
      | nil =>
          have hslash : ∀ c ∈ start.head?, c ≠ '/' := by
            rintro c hc rfl
            exact hstart '/' hc (by decide)
          exact .stop fun position =>
            Refuses.seq_left (.silent (.seq_left (refuses_char rfl hslash))) position
      | blank hc _ => exact absurd hc (hhead _ rfl)
      | @comment body c rest hbody hc h =>
          have hblank : Filler (c :: rest) :=
            .blank (List.mem_cons_of_mem ' ' (List.mem_cons_of_mem '\t' hc)) h
          obtain ⟨text', htext', hle, hhead', hrounds⟩ := hblank.whitespaces hstart
          have hcomment := (@parses_comment (rest ++ start) body c hbody hc).seq .atomic
            hrounds.star
          have htext : '/' :: '/' :: (body ++ c :: rest) ++ start =
              '/' :: '/' :: (body ++ c :: (rest ++ start)) := by simp
          rw [htext]
          rw [List.length_cons] at hle
          refine .round .atomic hcomment ?_ (ih _ ?_ htext' hhead' rfl)
          · simp only [List.length_cons, List.length_append]
            omega
          · simp only [List.length_cons, List.length_append]
            omega

/-- **A filler is passed over**, up to where no filler starts. -/
theorem skip_filler (hstart : Stops start) (h : Filler text) :
    Passes Grammar.trivia.skip (text ++ start) start := by
  obtain ⟨text', htext', -, hhead, hrounds⟩ := h.whitespaces hstart
  exact Trivia.passes (hrounds.star.seq .atomic (htext'.comments hstart hhead).star)

end

/-! ## Tokens -/

/-- No filler starts with the token. -/
def Solid (t : String) : Prop :=
  ∃ c cs, t.toList = c :: cs ∧ c ∉ fillerStarts

theorem fillerStarts_not_alphanumeric {c : Char} (hc : c ∈ fillerStarts) :
    Grammar.isAsciiAlphanumeric c = false := by
  simp only [fillerStarts, List.mem_cons, List.not_mem_nil, or_false] at hc
  rcases hc with rfl | rfl | rfl | rfl | rfl <;> rfl

theorem IsIdentifier.solid {name : String} (h : IsIdentifier name) : Solid name := by
  obtain ⟨c, cs, hname, hc, -⟩ := h
  refine ⟨c, cs, hname, fun hmem => ?_⟩
  have hfiller := fillerStarts_not_alphanumeric hmem
  rw [Grammar.isAsciiAlphanumeric, hc] at hfiller
  cases hfiller

theorem Starts.stops {ts : List String} {text : List Char} (hsolid : ∀ t ∈ ts, Solid t)
    (h : Starts ts text) : Stops text := by
  cases ts with
  | nil =>
      obtain rfl : text = [] := h
      nofun
  | cons t ts =>
      obtain ⟨rest, rfl, -⟩ := h
      obtain ⟨c, cs, ht, hc⟩ := hsolid t List.mem_cons_self
      intro d hd
      rw [ht] at hd
      obtain rfl := Option.some.inj hd
      exact hc

/-- **Spelled tokens.**  All of them are solid, so a filler ends where the next starts. -/
def spelling : Scan String where
  skip := Grammar.trivia.skip
  Begins := fun ts text => (∀ t ∈ ts, Solid t) ∧ Starts ts text
  Follows := fun ts text => (∀ t ∈ ts, Solid t) ∧
    ∃ filler start, Filler filler ∧ Starts ts start ∧ text = filler ++ start
  follows_of_begins := fun ⟨hsolid, hstarts⟩ => ⟨hsolid, [], _, .nil, hstarts, rfl⟩
  passes := by
    rintro ts text ⟨hsolid, filler, start, hfiller, hstarts, rfl⟩
    refine ⟨start, skip_filler (hstarts.stops hsolid) hfiller, ⟨hsolid, hstarts⟩, ?_⟩
    rw [List.length_append]
    exact Nat.le_add_left _ _

theorem AfterToken.follows {ts : List String} {text : List Char}
    (hsolid : ∀ t ∈ ts, Solid t) (h : AfterToken ts text) : spelling.Follows ts text := by
  refine ⟨hsolid, ?_⟩
  cases h with
  | done h => exact ⟨text, [], h, rfl, (List.append_nil _).symm⟩
  | @next sep t ts rest hsep _ h => exact ⟨sep, _, hsep, ⟨rest, rfl, h⟩, rfl⟩

/-- After a token comes a filler, or nothing. -/
theorem AfterToken.head {ts : List String} {text : List Char} (h : AfterToken ts text) :
    ∀ c ∈ text.head?, c ∈ fillerStarts := by
  cases h with
  | done h => exact h.head
  | @next sep t ts rest hsep hne h =>
      obtain ⟨c, sep, rfl⟩ := List.exists_cons_of_ne_nil hne
      exact hsep.head

/-! ### Lexical rules -/

section

variable {ts : List String}

theorem reads_literal (t : String) :
    spelling.Reads (.str t : Expr Rule) (t :: ts) ts fun pairs => pairs = [] := by
  rintro text ⟨hsolid, rest, rfl, hafter⟩
  obtain ⟨c, cs, ht, -⟩ := hsolid t List.mem_cons_self
  refine ⟨[], rest, .str t,
    hafter.follows fun t' ht' => hsolid t' (List.mem_cons_of_mem t ht'), ?_, rfl⟩
  rw [ht]
  simp only [List.length_cons, List.length_append]
  omega

/-- A name ends where its token does: no filler starts with a character of a name. -/
theorem parses_identifier {skip : Input → Input} {name : String} {rest : List Char}
    (hname : IsIdentifier name) (hrest : ∀ c ∈ rest.head?, c ∈ fillerStarts) :
    Parses skip false Grammar.identifier (name.toList ++ rest) [.mk .identifier name []]
      rest := by
  obtain ⟨c, cs, hcons, hc, hcs⟩ := hname
  have hrounds : Rounds skip true
      (.choice (.satisfy Grammar.isAsciiAlphanumeric) (.str "_") : Expr Rule)
      (cs ++ rest) [] rest := by
    induction cs generalizing name with
    | nil =>
        refine .stop fun position => Refuses.choice (.satisfy ?_) (refuses_char rfl ?_) position
        · exact fun d hd => fillerStarts_not_alphanumeric (hrest d hd)
        · rintro d hd rfl
          exact absurd (hrest '_' hd) (by decide)
    | cons d cs ih =>
        have hrounds := @ih (String.ofList (c :: cs)) String.toList_ofList
          fun d' hd' => hcs d' (List.mem_cons_of_mem d hd')
        have hchar : Parses skip true
            (.choice (.satisfy Grammar.isAsciiAlphanumeric) (.str "_") : Expr Rule)
            (d :: (cs ++ rest)) [] (cs ++ rest) := by
          rcases hcs d List.mem_cons_self with hd | rfl
          · exact .choice_left (.satisfy hd)
          · exact .choice_right (.satisfy fun d hd => Option.some.inj hd ▸ rfl)
              (parses_str rfl)
        exact .round .atomic hchar (Nat.lt_succ_self _) hrounds
  have hparses : Parses skip false Grammar.identifier (c :: (cs ++ rest))
      [.mk .identifier (covered (c :: cs ++ rest) rest) []] rest :=
    .atomic ((Parses.satisfy hc).seq .atomic hrounds.star)
  rw [covered_append, ← hcons, String.ofList_toList] at hparses
  rw [hcons]
  exact hparses

theorem reads_identifier {name : String} (hname : IsIdentifier name) :
    spelling.Reads Grammar.identifier (name :: ts) ts fun pairs =>
      pairs = [.mk .identifier name []] := by
  rintro text ⟨hsolid, rest, rfl, hafter⟩
  obtain ⟨c, cs, hcons, -⟩ := hname.solid
  refine ⟨_, rest, parses_identifier hname hafter.head,
    hafter.follows fun t' ht' => hsolid t' (List.mem_cons_of_mem name ht'), ?_, rfl⟩
  rw [hcons]
  simp only [List.length_cons, List.length_append]
  omega

/-- A literal is rejected where the next token has another first character. -/
theorem rejects_literal {literal : String} {c : Char} {next : List (Option String)}
    (hliteral : literal.toList.head? = some c) (hts : ts.head? ∈ next)
    (hnext : ∀ t ∈ next, t.bind (·.toList.head?) ≠ some c) :
    spelling.Rejects (.str literal : Expr Rule) ts := by
  rintro text ⟨hsolid, hstarts⟩
  refine refuses_char hliteral ?_
  rintro d hd rfl
  cases ts with
  | nil =>
      obtain rfl : text = [] := hstarts
      cases hd
  | cons t ts =>
      obtain ⟨rest, rfl, -⟩ := hstarts
      obtain ⟨c', cs, hcons, -⟩ := hsolid t List.mem_cons_self
      refine hnext (some t) hts ?_
      rw [Option.bind_some, hcons]
      rw [hcons] at hd
      exact hd

/-- The exclusion operator does not start an arrow: a filler follows it. -/
theorem rejects_arrow : spelling.Rejects (.str "->" : Expr Rule) ("-" :: ts) := by
  rintro text ⟨-, rest, rfl, hafter⟩
  refine .str ?_
  rintro ⟨rest', hrest⟩
  have hrest : '-' :: ('>' :: rest') = '-' :: rest := hrest
  rw [← (List.cons.inj hrest).2] at hafter
  exact absurd (hafter.head '>' rfl) (by decide)

end

end Kraalzibar
