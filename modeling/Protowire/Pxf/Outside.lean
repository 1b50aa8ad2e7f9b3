import Protowire.Pxf.Brackets

/-!
The comment tokens of a document outside the bodies of its directives. A walk over the tokens
marks those between a directive's name and the brace of its block, which belong to no body.
-/

namespace Protowire.Pxf

open Support

structure Cursor where
  lex : Lexer
  current : Token

def Parser.cursor (p : Parser) : Cursor := ⟨p.lex, p.current⟩

namespace Cursor

def first (l : Lexer) : Cursor := ⟨(significant l).lex, (significant l).token⟩

def advanced (c : Cursor) : Cursor := first c.lex

def passed (c : Cursor) : List Comment := (significant c.lex).comments

def remaining (c : Cursor) : Nat := c.lex.rest.length + if c.current.kind = .eof then 0 else 1

end Cursor

def bracesTurn (s : Nat × Cursor) : Turn (Nat × Cursor) Cursor :=
  if s.2.current.kind = .eof then .done s.2
  else if s.2.current.kind = .lBrace then .next (s.1 + 1, s.2.advanced)
  else if s.2.current.kind = .rBrace then
    if s.1 ≤ 1 then .done s.2 else .next (s.1 - 1, s.2.advanced)
  else .next (s.1, s.2.advanced)

def closingBrace (depth : Nat) (c : Cursor) : Cursor :=
  loop (fun s => s.2.remaining) bracesTurn (·.2) (depth, c)

def nameTurn (s : List Comment × Cursor) : Turn (List Comment × Cursor) (List Comment × Cursor) :=
  if s.2.current.kind = .ident then .next (s.1 ++ s.2.passed, s.2.advanced) else .done s

def nameRun (s : List Comment × Cursor) : List Comment × Cursor :=
  loop (fun s => s.2.remaining) nameTurn id s

abbrev Seen := List (Comment × Bool)

def plain (comments : List Comment) : Seen := comments.map (·, false)

def pastProto (found : Seen) (c : Cursor) : Turn (Seen × Cursor) Seen :=
  match findMatchingBrace c.lex.input c.current.pos.offset with
  | none => .next (found ++ plain c.passed, c.advanced)
  | some close =>
    let lex := c.lex.advance (close + 1 - c.lex.pos)
    .next (found ++ plain (significant lex).comments, .first lex)

def outsideTurn (s : Seen × Cursor) : Turn (Seen × Cursor) Seen :=
  let (found, c) := s
  match c.current.kind with
  | .eof => .done found
  | .atDirective =>
    let (comments, after) := nameRun (c.passed, c.advanced)
    if after.current.kind = .lBrace then
      let close := closingBrace 1 after.advanced
      .next (found ++ comments.map (·, true) ++ plain close.passed, close.advanced)
    else .next (found ++ plain comments, after)
  | .atProto =>
    let body := c.advanced
    let found := found ++ plain c.passed
    if body.current.kind = .lBrace then pastProto found body
    else if body.current.kind = .ident ∧ body.advanced.current.kind = .lBrace then
      pastProto (found ++ plain body.passed) body.advanced
    else .next (found, body)
  | _ => .next (found ++ plain c.passed, c.advanced)

def outsideFrom (found : Seen) (c : Cursor) : Seen :=
  loop (fun s => s.2.remaining) outsideTurn (·.1) (found, c)

def commentsSeen (l : Lexer) : Seen := outsideFrom (plain (significant l).comments) (.first l)

theorem Cursor.first_remaining (l : Lexer) : (Cursor.first l).remaining ≤ l.rest.length := by
  have shorter := significantFrom_rest ⟨{}, l, [], []⟩
  rw [← significant_eq] at shorter
  change (significant l).lex.rest.length + (if (significant l).token.kind = .eof then 0 else 1) ≤ _
  obtain ⟨ended, empty⟩ | shorter := shorter
  · simp [ended, empty]
  · have shorter : (significant l).lex.rest.length < l.rest.length := shorter
    split <;> omega

theorem Cursor.advanced_remaining {c : Cursor} (more : c.current.kind ≠ .eof) :
    c.advanced.remaining < c.remaining := by
  have shorter := Cursor.first_remaining c.lex
  have here : c.remaining = c.lex.rest.length + 1 := by rw [Cursor.remaining, if_neg more]
  rw [here]
  exact Nat.lt_succ_of_le shorter

theorem bracesTurn_lowers : Lowers (fun s : Nat × Cursor => s.2.remaining) bracesTurn := by
  intro s following turned
  simp only [bracesTurn] at turned
  split at turned
  · cases turned
  · rename_i more
    have lower := Cursor.advanced_remaining more
    split_ifs at turned <;> cases turned <;> exact lower

theorem closingBrace_remaining (depth : Nat) (c : Cursor) :
    (closingBrace depth c).remaining ≤ c.remaining := by
  refine loop_induct (motive := fun s result => result.remaining ≤ s.2.remaining)
    bracesTurn_lowers ?_ ?_ (depth, c)
  · intro s following result turned later
    exact Nat.le_of_lt (Nat.lt_of_le_of_lt later (bracesTurn_lowers s following turned))
  · intro s result turned
    simp only [bracesTurn] at turned
    split_ifs at turned <;> cases turned <;> exact Nat.le_refl _

theorem nameTurn_lowers : Lowers (fun s : List Comment × Cursor => s.2.remaining) nameTurn := by
  intro s following turned
  simp only [nameTurn] at turned
  split at turned
  · rename_i ident
    cases turned
    exact Cursor.advanced_remaining (by rw [ident]; simp)
  · cases turned

theorem nameRun_remaining (s : List Comment × Cursor) :
    (nameRun s).2.remaining ≤ s.2.remaining := by
  refine loop_induct (motive := fun s result => result.2.remaining ≤ s.2.remaining)
    nameTurn_lowers ?_ ?_ s
  · intro s following result turned later
    exact Nat.le_of_lt (Nat.lt_of_le_of_lt later (nameTurn_lowers s following turned))
  · intro s result turned
    simp only [nameTurn] at turned
    split at turned <;> cases turned
    exact Nat.le_refl _

theorem pastProto_lowers {found : Seen} {c : Cursor} (more : c.current.kind ≠ .eof)
    {following : Seen × Cursor} (turned : pastProto found c = .next following) :
    following.2.remaining < c.remaining := by
  have lower := Cursor.advanced_remaining more
  simp only [pastProto] at turned
  split at turned
  · cases turned
    exact lower
  · cases turned
    rename_i close found
    have here : c.remaining = c.lex.rest.length + 1 := by rw [Cursor.remaining, if_neg more]
    have after := Cursor.first_remaining (c.lex.advance (close + 1 - c.lex.pos))
    rw [Lexer.rest_advance, List.length_drop] at after
    rw [here]
    exact Nat.lt_succ_of_le (Nat.le_trans after (Nat.sub_le _ _))

theorem outsideTurn_lowers : Lowers (fun s : Seen × Cursor => s.2.remaining) outsideTurn := by
  rintro ⟨found, c⟩ following turned
  simp only [outsideTurn] at turned
  split at turned
  · cases turned
  · rename_i kind
    have lower := Cursor.advanced_remaining (c := c) (by rw [kind]; simp)
    have run := nameRun_remaining (c.passed, c.advanced)
    split at turned
    · rename_i brace
      cases turned
      have close := closingBrace_remaining 1 (nameRun (c.passed, c.advanced)).2.advanced
      have opened := Cursor.advanced_remaining (c := (nameRun (c.passed, c.advanced)).2)
        (by rw [brace]; simp)
      have after : (closingBrace 1 (nameRun (c.passed, c.advanced)).2.advanced).advanced.remaining ≤
          (closingBrace 1 (nameRun (c.passed, c.advanced)).2.advanced).remaining := by
        refine Nat.le_trans (Cursor.first_remaining _) ?_
        rw [Cursor.remaining]
        exact Nat.le_add_right _ _
      dsimp only at run ⊢
      omega
    · cases turned
      dsimp only at run ⊢
      omega
  · rename_i kind
    have lower := Cursor.advanced_remaining (c := c) (by rw [kind]; simp)
    split at turned
    · rename_i brace
      have jump := pastProto_lowers (by rw [brace]; simp) turned
      exact Nat.lt_trans jump lower
    · split at turned
      · rename_i named
        have jump := pastProto_lowers (by rw [named.2]; simp) turned
        have step := Cursor.advanced_remaining (c := c.advanced) (by rw [named.1]; simp)
        exact Nat.lt_trans jump (Nat.lt_trans step lower)
      · cases turned
        exact lower
  · rename_i more _ _
    cases turned
    exact Cursor.advanced_remaining (by simpa using more)

def TokenKind.Ordinary (kind : TokenKind) : Prop :=
  kind ≠ .eof ∧ kind ≠ .atDirective ∧ kind ≠ .atProto

section

variable {found : Seen} {c : Cursor}

theorem outsideFrom_ordinary (ordinary : c.current.kind.Ordinary) :
    outsideFrom found c = outsideFrom (found ++ plain c.passed) c.advanced := by
  refine loop_next outsideTurn_lowers ?_
  obtain ⟨more, noDirective, noProto⟩ := ordinary
  simp only [outsideTurn]

theorem outsideFrom_eof (ended : c.current.kind = .eof) : outsideFrom found c = found := by
  refine loop_done ?_
  simp only [outsideTurn, ended]

theorem outsideFrom_block (directive : c.current.kind = .atDirective) {comments : List Comment}
    {after : Cursor} (run : nameRun (c.passed, c.advanced) = (comments, after))
    (brace : after.current.kind = .lBrace) :
    outsideFrom found c =
      outsideFrom (found ++ (comments.map (·, true) ++ plain (closingBrace 1 after.advanced).passed))
        (closingBrace 1 after.advanced).advanced := by
  refine loop_next outsideTurn_lowers ?_
  simp only [outsideTurn, directive, run]
  rw [if_pos brace, List.append_assoc]

theorem outsideFrom_bare (directive : c.current.kind = .atDirective) {comments : List Comment}
    {after : Cursor} (run : nameRun (c.passed, c.advanced) = (comments, after))
    (brace : after.current.kind ≠ .lBrace) :
    outsideFrom found c = outsideFrom (found ++ plain comments) after := by
  refine loop_next outsideTurn_lowers ?_
  simp only [outsideTurn, directive, run]
  rw [if_neg brace]

theorem nameRun_ident {comments : List Comment} (ident : c.current.kind = .ident) :
    nameRun (comments, c) = nameRun (comments ++ c.passed, c.advanced) := by
  refine loop_next nameTurn_lowers ?_
  simp only [nameTurn]
  rw [if_pos ident]

theorem nameRun_done {comments : List Comment} (ident : c.current.kind ≠ .ident) :
    nameRun (comments, c) = (comments, c) := by
  refine loop_done ?_
  simp only [nameTurn]
  rw [if_neg ident]

def Cursor.beyond (c : Cursor) (close : Nat) : Lexer := c.lex.advance (close + 1 - c.lex.pos)

theorem outsideFrom_anonymous (proto : c.current.kind = .atProto)
    (brace : c.advanced.current.kind = .lBrace) {close : Nat}
    (matched : findMatchingBrace c.advanced.lex.input c.advanced.current.pos.offset = some close) :
    outsideFrom found c =
      outsideFrom (found ++ (plain c.passed ++ plain (significant (c.advanced.beyond close)).comments))
        (.first (c.advanced.beyond close)) := by
  refine loop_next outsideTurn_lowers ?_
  simp only [outsideTurn, proto]
  rw [if_pos brace, pastProto, matched, ← List.append_assoc]
  rfl

theorem outsideFrom_named (proto : c.current.kind = .atProto)
    (ident : c.advanced.current.kind = .ident)
    (brace : c.advanced.advanced.current.kind = .lBrace) {close : Nat}
    (matched : findMatchingBrace c.advanced.advanced.lex.input
      c.advanced.advanced.current.pos.offset = some close) :
    outsideFrom found c =
      outsideFrom (found ++ (plain c.passed ++ (plain c.advanced.passed ++
          plain (significant (c.advanced.advanced.beyond close)).comments)))
        (.first (c.advanced.advanced.beyond close)) := by
  refine loop_next outsideTurn_lowers ?_
  simp only [outsideTurn, proto]
  rw [if_neg (by rw [ident]; simp), if_pos ⟨ident, brace⟩, pastProto, matched,
    ← List.append_assoc, ← List.append_assoc]
  rfl

theorem outsideFrom_unbraced (proto : c.current.kind = .atProto)
    (brace : c.advanced.current.kind ≠ .lBrace) (ident : c.advanced.current.kind ≠ .ident) :
    outsideFrom found c = outsideFrom (found ++ plain c.passed) c.advanced := by
  refine loop_next outsideTurn_lowers ?_
  simp only [outsideTurn, proto]
  rw [if_neg brace, if_neg fun named => ident named.1]

end

def closingCount : Count .lBrace .rBrace Cursor where
  run depth p := closingBrace depth p.cursor
  files _ _ _ := rfl
  plain := by
    intro depth p plain
    refine loop_next bracesTurn_lowers ?_
    have here : p.cursor.current.kind = p.current.kind := rfl
    simp only [bracesTurn, here]
    rw [if_neg plain.1, if_neg plain.2.1, if_neg plain.2.2]
    rfl
  opens := by
    intro depth p opens
    refine loop_next bracesTurn_lowers ?_
    have here : p.cursor.current.kind = .lBrace := opens
    simp only [bracesTurn, here]
    rfl
  closes := by
    intro depth p closes
    refine loop_next bracesTurn_lowers ?_
    have here : p.cursor.current.kind = .rBrace := closes
    simp only [bracesTurn, here]
    rfl

theorem closingBrace_here {c : Cursor} (closes : c.current.kind = .rBrace) :
    closingBrace 1 c = c := by
  refine loop_done ?_
  simp only [bracesTurn, closes]
  rfl

end Protowire.Pxf
