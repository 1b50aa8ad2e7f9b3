import Protowire.Pxf.Lexer
import Protowire.Pxf.ParserCore

/-!
Reading the next significant token: that it ends, what it leaves, and how a tolerant reading
follows a strict one.
-/

namespace Protowire.Pxf

open Support

section

variable (p : Parser)

@[simp] theorem advanced_current : p.advanced.current = (significant p.lex).token := rfl

@[simp] theorem advanced_lex : p.advanced.lex = (significant p.lex).lex := rfl

@[simp] theorem advanced_tolerant : p.advanced.tolerant = p.tolerant := rfl

@[simp] theorem advanced_errs : p.advanced.errs = p.errs ++ (significant p.lex).errors := rfl

@[simp] theorem advanced_comments :
    p.advanced.comments = p.comments ++ (significant p.lex).comments := rfl

end

def significantFrom (read : Significant) : Significant :=
  loop (fun read : Significant => read.lex.rest.length) significantTurn id read

theorem significantTurn_lowers :
    Lowers (fun read : Significant => read.lex.rest.length) significantTurn := by
  intro read following turned
  have shorter := read.lex.next_rest
  simp only [significantTurn] at turned
  rcases shorter with ⟨ended, _⟩ | shorter
  · rw [ended] at turned
    simp at turned
  · split at turned
    · cases turned; exact shorter
    · split at turned
      · cases turned; exact shorter
      · cases turned

def Significant.then (read : Significant) (found : Token × Lexer × List Error) : Significant :=
  { read with token := found.1, lex := found.2.1, errors := read.errors ++ found.2.2 }

@[simp] theorem then_token (read : Significant) (found : Token × Lexer × List Error) :
    (read.then found).token = found.1 := rfl

@[simp] theorem then_lex (read : Significant) (found : Token × Lexer × List Error) :
    (read.then found).lex = found.2.1 := rfl

@[simp] theorem then_errors (read : Significant) (found : Token × Lexer × List Error) :
    (read.then found).errors = read.errors ++ found.2.2 := rfl

theorem significantFrom_newline {read : Significant} (newline : read.lex.next.1.kind = .newline) :
    significantFrom read = significantFrom (read.then read.lex.next) := by
  refine loop_next significantTurn_lowers ?_
  simp [significantTurn, newline, Significant.then]

theorem significantFrom_comment {read : Significant} (comment : read.lex.next.1.kind = .comment) :
    significantFrom read = significantFrom
      { read.then read.lex.next with
        comments := read.comments ++ [⟨read.lex.next.1.pos, read.lex.next.1.value⟩] } := by
  refine loop_next significantTurn_lowers ?_
  simp [significantTurn, comment, Significant.then]

theorem significantFrom_done {read : Significant} (noNewline : read.lex.next.1.kind ≠ .newline)
    (noComment : read.lex.next.1.kind ≠ .comment) :
    significantFrom read = read.then read.lex.next := by
  refine loop_done ?_
  simp [significantTurn, noNewline, noComment, Significant.then]

theorem significantFrom_induct {motive : Significant → Prop}
    (newline : ∀ read : Significant, read.lex.next.1.kind = .newline →
      motive (read.then read.lex.next) → motive read)
    (comment : ∀ read : Significant, read.lex.next.1.kind = .comment →
      motive { read.then read.lex.next with
        comments := read.comments ++ [⟨read.lex.next.1.pos, read.lex.next.1.value⟩] } → motive read)
    (done : ∀ read : Significant, read.lex.next.1.kind ≠ .newline →
      read.lex.next.1.kind ≠ .comment → motive read) :
    ∀ read, motive read := by
  intro read
  generalize size : read.lex.rest.length = bound
  induction bound using Nat.strongRecOn generalizing read with
  | ind bound ih =>
    have shorter := read.lex.next_rest
    by_cases isNewline : read.lex.next.1.kind = .newline
    · refine newline read isNewline (ih _ ?_ _ rfl)
      simpa [isNewline, ← size] using shorter
    · by_cases isComment : read.lex.next.1.kind = .comment
      · refine comment read isComment (ih _ ?_ _ rfl)
        simpa [isComment, ← size] using shorter
      · exact done read isNewline isComment

theorem significantFrom_rest (read : Significant) :
    (significantFrom read).token.kind = .eof ∧ (significantFrom read).lex.rest = [] ∨
      (significantFrom read).lex.rest.length < read.lex.rest.length := by
  induction read using significantFrom_induct with
  | newline read isNewline ih =>
    rw [significantFrom_newline isNewline]
    have shorter := read.lex.next_rest
    simp only [isNewline, reduceCtorEq, false_and, false_or] at shorter
    exact ih.imp_right fun later => Nat.lt_trans later shorter
  | comment read isComment ih =>
    rw [significantFrom_comment isComment]
    have shorter := read.lex.next_rest
    simp only [isComment, reduceCtorEq, false_and, false_or] at shorter
    exact ih.imp_right fun later => Nat.lt_trans later shorter
  | done read noNewline noComment =>
    rw [significantFrom_done noNewline noComment]
    exact read.lex.next_rest

theorem significantFrom_kind (read : Significant) :
    (significantFrom read).token.kind ≠ .newline ∧
      (significantFrom read).token.kind ≠ .comment := by
  induction read using significantFrom_induct with
  | newline read isNewline ih => rw [significantFrom_newline isNewline]; exact ih
  | comment read isComment ih => rw [significantFrom_comment isComment]; exact ih
  | done read noNewline noComment =>
    rw [significantFrom_done noNewline noComment]
    exact ⟨noNewline, noComment⟩

def Lexer.MovedTo (l l' : Lexer) : Prop :=
  l' = { l with pos := l'.pos, line := l'.line, column := l'.column }

theorem Lexer.MovedTo.refl (l : Lexer) : l.MovedTo l := rfl

theorem Lexer.MovedTo.trans {a b c : Lexer} (first : a.MovedTo b) (second : b.MovedTo c) :
    a.MovedTo c := by
  unfold MovedTo at *
  rw [second, first]

theorem Lexer.next_movedTo (l : Lexer) : l.MovedTo l.next.2.1 := by
  simp only [Lexer.next]
  split <;> rfl

theorem repositionTo_movedTo (l : Lexer) (target : Nat) : l.MovedTo (l.repositionTo target) := by
  rw [Lexer.repositionTo]
  split <;> rfl

theorem significantFrom_stands (read : Significant) :
    ∃ at_ : Lexer, read.lex.MovedTo at_ ∧ at_.skipSpaces = at_ ∧
      at_.currentPos = (significantFrom read).token.pos ∧
      at_.next.1 = (significantFrom read).token ∧ at_.next.2.1 = (significantFrom read).lex := by
  induction read using significantFrom_induct with
  | newline read isNewline ih =>
    rw [significantFrom_newline isNewline]
    obtain ⟨at_, moved, stands⟩ := ih
    exact ⟨at_, read.lex.next_movedTo.trans moved, stands⟩
  | comment read isComment ih =>
    rw [significantFrom_comment isComment]
    obtain ⟨at_, moved, stands⟩ := ih
    exact ⟨at_, read.lex.next_movedTo.trans moved, stands⟩
  | done read noNewline noComment =>
    rw [significantFrom_done noNewline noComment]
    have again : read.lex.skipSpaces.next = read.lex.next := by
      simp only [Lexer.next, Lexer.skipSpaces_skipSpaces]
    refine ⟨read.lex.skipSpaces, rfl, read.lex.skipSpaces_skipSpaces, ?_, ?_, ?_⟩
    · rw [then_token]
      simp only [Lexer.next]
      split <;> rfl
    · rw [again, then_token]
    · rw [again, then_lex]

def Lexer.forgiving (l : Lexer) : Lexer := { l with tolerant := true }

def DeadToken (token : Token) : Prop :=
  token.kind = .illegal ∨
    token.kind = .bytes ∧ (base64DecodeLenient token.value).toOption = none

structure DeadNext (found : Token × Lexer × List Error) : Prop where
  mark : found.2.2 ≠ [] ∨ DeadToken found.1
  kind : found.1.kind = .illegal ∨ found.1.kind = .string ∨ found.1.kind = .bytes ∨
    found.1.kind = .comment ∧ found.2.1.rest = []

theorem next_forgives (l : Lexer) (strict : l.tolerant = false) :
    l.next.2.2 = [] ∧ l.next.2.1.tolerant = false ∧
      (l.next.1.kind ≠ .illegal ∧ l.forgiving.next = (l.next.1, l.next.2.1.forgiving, []) ∨
        l.next.1.kind = .illegal ∧ DeadNext l.forgiving.next) := by
  have mode : l.skipSpaces.tolerant = false := strict
  have rest : l.forgiving.skipSpaces.rest = l.skipSpaces.rest := rfl
  simp only [Lexer.next, rest]
  split
  · exact ⟨rfl, mode, .inl ⟨by simp, rfl⟩⟩
  · have limit : l.forgiving.skipSpaces.maxBytesLiteral = l.skipSpaces.maxBytesLiteral := rfl
    have lenient : l.forgiving.skipSpaces.tolerant = true := rfl
    simp only [mode, limit, lenient]
    cases scan_forgives l.skipSpaces.maxBytesLiteral l.skipSpaces.rest with
    | same legal silent equal =>
      rw [equal]
      refine ⟨by simp [silent], mode, .inl ⟨legal, ?_⟩⟩
      simp only [silent, List.map_nil]
      rfl
    | flawed illegal silent flawed =>
      refine ⟨by simp [silent], mode, .inr ⟨illegal, ?_⟩⟩
      cases flawed with
      | illegal kind => exact ⟨.inr (.inl kind), .inl kind⟩
      | comment reports kind all =>
        refine ⟨.inl (by simpa using reports), .inr (.inr (.inr ⟨kind, ?_⟩))⟩
        rw [Lexer.rest_advance, all, rest, List.drop_length]
      | reported reports kind =>
        exact ⟨.inl (by simpa using reports), .inr (kind.imp_right .inl)⟩
      | undecodable kind fails => exact ⟨.inr (.inr ⟨kind, fails⟩), .inr (.inr (.inl kind))⟩

def Significant.forgiving (read : Significant) : Significant :=
  { read with lex := read.lex.forgiving }

structure DeadRead (read : Significant) : Prop where
  mark : read.errors ≠ [] ∨ DeadToken read.token
  kind : read.token.kind = .illegal ∨ read.token.kind = .string ∨ read.token.kind = .bytes ∨
    read.token.kind = .eof

theorem next_empty {l : Lexer} (empty : l.rest = []) : l.next.1.kind = .eof ∧ l.next.2.2 = [] := by
  have spaces : l.skipSpaces.rest = [] := by rw [Lexer.rest_skipSpaces, empty]; rfl
  simp [Lexer.next, spaces]

theorem significantFrom_reported {read : Significant} (reported : read.errors ≠ [])
    (empty : read.lex.rest = []) : DeadRead (significantFrom read) := by
  have ended := next_empty empty
  rw [significantFrom_done (by simp [ended.1]) (by simp [ended.1])]
  exact ⟨.inl (by simp [reported]), .inr (.inr (.inr ended.1))⟩

theorem significantFrom_forgives (read : Significant) :
    read.lex.tolerant = false → read.errors = [] →
      (significantFrom read).errors = [] ∧ (significantFrom read).lex.tolerant = false ∧
        ((significantFrom read).token.kind ≠ .illegal ∧
            significantFrom read.forgiving = (significantFrom read).forgiving ∨
          (significantFrom read).token.kind = .illegal ∧
            DeadRead (significantFrom read.forgiving)) := by
  induction read using significantFrom_induct with
  | newline read isNewline ih =>
    intro strict silent
    obtain ⟨quiet, mode, agree⟩ := next_forgives read.lex strict
    have same : read.forgiving.lex.next = (read.lex.next.1, read.lex.next.2.1.forgiving, []) := by
      rcases agree with ⟨_, same⟩ | ⟨illegal, _⟩
      · exact same
      · rw [isNewline] at illegal; cases illegal
    have also : read.forgiving.lex.next.1.kind = .newline := by rw [same]; exact isNewline
    rw [significantFrom_newline isNewline, significantFrom_newline also, same]
    have step := ih mode (by simp [silent, quiet])
    simpa [Significant.then, Significant.forgiving, quiet] using step
  | comment read isComment ih =>
    intro strict silent
    obtain ⟨quiet, mode, agree⟩ := next_forgives read.lex strict
    have same : read.forgiving.lex.next = (read.lex.next.1, read.lex.next.2.1.forgiving, []) := by
      rcases agree with ⟨_, same⟩ | ⟨illegal, _⟩
      · exact same
      · rw [isComment] at illegal; cases illegal
    have also : read.forgiving.lex.next.1.kind = .comment := by rw [same]; exact isComment
    rw [significantFrom_comment isComment, significantFrom_comment also, same]
    have step := ih mode (by simp [silent, quiet])
    simpa [Significant.then, Significant.forgiving, quiet] using step
  | done read noNewline noComment =>
    intro strict silent
    obtain ⟨quiet, mode, agree⟩ := next_forgives read.lex strict
    rw [significantFrom_done noNewline noComment]
    refine ⟨by simp [silent, quiet], mode, ?_⟩
    rcases agree with ⟨legal, same⟩ | ⟨illegal, dead⟩
    · refine .inl ⟨legal, ?_⟩
      have same : read.forgiving.lex.next = (read.lex.next.1, read.lex.next.2.1.forgiving, []) := same
      have notNewline : read.forgiving.lex.next.1.kind ≠ .newline := by rw [same]; exact noNewline
      have notComment : read.forgiving.lex.next.1.kind ≠ .comment := by rw [same]; exact noComment
      rw [significantFrom_done notNewline notComment, same]
      simp [Significant.then, Significant.forgiving, quiet]
    · refine .inr ⟨illegal, ?_⟩
      have dead : DeadNext read.forgiving.lex.next := dead
      by_cases isComment : read.forgiving.lex.next.1.kind = .comment
      · -- An unterminated comment runs to the end, so the end is what follows it.
        have empty : read.forgiving.lex.next.2.1.rest = [] := by
          rcases dead.kind with kind | kind | kind | kind
          · rw [isComment] at kind; cases kind
          · rw [isComment] at kind; cases kind
          · rw [isComment] at kind; cases kind
          · exact kind.2
        have reported : read.forgiving.lex.next.2.2 ≠ [] := by
          rcases dead.mark with reported | kind | ⟨kind, _⟩
          · exact reported
          · rw [isComment] at kind; cases kind
          · rw [isComment] at kind; cases kind
        rw [significantFrom_comment isComment]
        exact significantFrom_reported (by simp [reported]) empty
      · have kind : read.forgiving.lex.next.1.kind = .illegal ∨
            read.forgiving.lex.next.1.kind = .string ∨ read.forgiving.lex.next.1.kind = .bytes := by
          rcases dead.kind with kind | kind | kind | kind
          · exact .inl kind
          · exact .inr (.inl kind)
          · exact .inr (.inr kind)
          · exact absurd kind.1 isComment
        rw [significantFrom_done (by rcases kind with kind | kind | kind <;> simp [kind]) isComment]
        refine ⟨?_, kind.imp_right (Or.imp_right .inl)⟩
        exact dead.mark.imp_left fun reported => by simp [reported]

end Protowire.Pxf
