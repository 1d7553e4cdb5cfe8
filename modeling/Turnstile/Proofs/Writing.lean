import Turnstile.Proofs.Layouts
import Turnstile.Proofs.Rereading

/-!
# What is written can be read

A printer writes a term as a text that is cut into pieces which are read as the term again, with
other types perhaps. Words on their own, forms, abstractions and the functions of applications are
operands; an application is a term. The text does not depend on types, since the form that a term
has does not.
-/

namespace Turnstile

open Formula

/-! ## Words that can be told apart -/

/-- A vocabulary whose terms can be written and read: nothing that is written for an operator or a
set builder is taken for something else. -/
structure Vocabulary.Readable (v : Vocabulary) : Prop extends v.Writable where
  /-- Operators bind tighter than nothing and looser than application. -/
  precedences : ∀ op ∈ v.operators, 1 ≤ op.precedence ∧ op.precedence < loosest
  /-- The membership words are identifiers. -/
  memberships : ∀ builder ∈ v.setBuilders, Identifier builder.member
  /-- Set builders have different membership words. -/
  members : ∀ builder ∈ v.setBuilders, ∀ other ∈ v.setBuilders,
    builder.member = other.member → builder = other

section Words

variable {v : Vocabulary} {op : Operator} {builder : SetBuilder}

/-- The operand of an operator may be an application. -/
theorem Operator.above_application (positive : 1 ≤ op.precedence) :
    op.precedence < loosest → applicationPrecedence < op.operandLimit := by
  intro below
  rw [Operator.operandLimit, nextPrecedence, applicationPrecedence]
  split
  · rw [if_neg (by omega)]
    omega
  · omega

/-- A set builder is found by its membership word. -/
theorem Vocabulary.Readable.find_member (readable : v.Readable)
    (listed : Word.setBuilder builder ∈ v.words) :
    v.setBuilders.find? (fun other => other.member == builder.member) = some builder := by
  have inside := Vocabulary.mem_setBuilders.mpr listed
  cases found : v.setBuilders.find? (fun other => other.member == builder.member) with
  | none => exact absurd (List.find?_eq_none.mp found builder inside) (by simp)
  | some other =>
    have same : other.member = builder.member := by simpa using List.find?_some found
    rw [readable.members _ (List.mem_of_find?_eq_some found) _ inside same]

end Words

/-! ## Texts and their pieces -/

namespace Formula

variable {fit : List Char → Prop} {cs cs' : List Char} {pieces pieces' more : List Piece} {c : Char}
  {v : Vocabulary} {text text' name member : String}

/-- Pieces may be followed by what does not continue an identifier. -/
theorem Cuts.before (first : Cuts Apart cs pieces) (second : Cuts fit (c :: cs') pieces')
    (foreign : isNamePart c = false) : Cuts fit (cs ++ c :: cs') (pieces ++ pieces') :=
  first.append second fun _ _ => apart_cons foreign _

/-- No question mark is among the pieces. -/
def Unmarked (pieces : List Piece) : Prop := ∀ piece ∈ pieces, piece.1 ≠ .question

/-- No pieces are unmarked. -/
@[simp] theorem unmarked_nil : Unmarked [] := by simp [Unmarked]

/-- Pieces are unmarked if the first one is no question mark and the others are unmarked. -/
@[simp] theorem unmarked_cons {kind : TokenKind} {word : String} :
    Unmarked ((kind, word) :: pieces) ↔ kind ≠ .question ∧ Unmarked pieces :=
  List.forall_mem_cons

/-- Two lists of pieces are unmarked if both are. -/
@[simp] theorem unmarked_append :
    Unmarked (pieces ++ pieces') ↔ Unmarked pieces ∧ Unmarked pieces' := List.forall_mem_append

/-- A text that is cut into pieces which begin a term and mark no schematic type. -/
structure Shows (v : Vocabulary) (text : String) (pieces : List Piece) : Prop where
  /-- The text is cut. -/
  cuts : Cuts Apart text.toList pieces
  /-- The pieces begin a term. -/
  opens : Opens v pieces
  /-- No schematic type is written. -/
  unmarked : Unmarked pieces

/-- A quiet word shows as itself. -/
theorem Shows.word (named : Identifier name) (quiet : Quiet v name) :
    Shows v name [(.identifier, name)] where
  cuts := cuts_identifier named
  opens := ⟨_, _, _, rfl, .inl ⟨rfl, quiet⟩⟩
  unmarked := by simp

/-- A word between parentheses shows as itself. -/
theorem Shows.bare (named : Identifier name) :
    Shows v ("(" ++ name ++ ")") [(.leftParen, "("), (.identifier, name), (.rightParen, ")")] where
  cuts := by
    have cuts := cuts_leftParen.join ((cuts_identifier named).before cuts_rightParen (by decide))
    simpa using cuts.strict
  opens := ⟨_, _, _, rfl, .inr (.inl rfl)⟩
  unmarked := by simp

/-- A prefix operator before what shows as its operand shows between parentheses. -/
theorem Shows.unary (named : Identifier name) (operand : Shows v text pieces) :
    Shows v ("(" ++ name ++ " " ++ text ++ ")")
      ((.leftParen, "(") :: (.identifier, name) :: (pieces ++ [(.rightParen, ")")])) where
  cuts := by
    have rest := cuts_blank.join (operand.cuts.before cuts_rightParen (by decide))
    have cuts := cuts_leftParen.join ((cuts_identifier named).before rest (by decide))
    simpa using cuts.strict
  opens := ⟨_, _, _, rfl, .inr (.inl rfl)⟩
  unmarked := by simp [operand.unmarked]

/-- An infix operator between what shows as its operands shows between parentheses. -/
theorem Shows.binary (left : Shows v text pieces) (named : Identifier name)
    (right : Shows v text' pieces') :
    Shows v ("(" ++ text ++ " " ++ name ++ " " ++ text' ++ ")")
      ((.leftParen, "(") :: (pieces ++ (.identifier, name) ::
        (pieces' ++ [(.rightParen, ")")]))) where
  cuts := by
    have last := cuts_blank.join (right.cuts.before cuts_rightParen (by decide))
    have rest := cuts_blank.join ((cuts_identifier named).before last (by decide))
    have cuts := cuts_leftParen.join (left.cuts.before rest (by decide))
    simpa using cuts.strict
  opens := ⟨_, _, _, rfl, .inr (.inl rfl)⟩
  unmarked := by simp [left.unmarked, right.unmarked]

/-- An abstraction shows between parentheses. -/
theorem Shows.lambda (named : Identifier name) (body : Shows v text pieces) :
    Shows v ("(\\" ++ name ++ "." ++ text ++ ")")
      ((.leftParen, "(") :: (.backslash, "\\") :: (.identifier, name) :: (.dot, ".") ::
        (pieces ++ [(.rightParen, ")")])) where
  cuts := by
    have last := cuts_dot.join (body.cuts.before cuts_rightParen (by decide))
    have rest := cuts_backslash.join ((cuts_identifier named).before last (by decide))
    simpa using (cuts_leftParen.join rest).strict
  opens := ⟨_, _, _, rfl, .inr (.inl rfl)⟩
  unmarked := by simp [body.unmarked]

/-- A binder shows between parentheses. -/
theorem Shows.binder (named : Identifier name) (bound : Identifier text')
    (body : Shows v text pieces) :
    Shows v ("(" ++ name ++ " " ++ text' ++ " . " ++ text ++ ")")
      ((.leftParen, "(") :: (.identifier, name) :: (.identifier, text') :: (.dot, ".") ::
        (pieces ++ [(.rightParen, ")")])) where
  cuts := by
    have last := cuts_blank.join (body.cuts.before cuts_rightParen (by decide))
    have dot := cuts_blank.join (cuts_dot.join last)
    have rest := cuts_blank.join ((cuts_identifier bound).before dot (by decide))
    have cuts := cuts_leftParen.join ((cuts_identifier named).before rest (by decide))
    simpa using cuts.strict
  opens := ⟨_, _, _, rfl, .inr (.inl rfl)⟩
  unmarked := by simp [body.unmarked]

/-- A set shows between braces. -/
theorem Shows.setOf (bound : Identifier name) (named : Identifier member)
    (set : Shows v text pieces) (body : Shows v text' pieces') :
    Shows v ("\x7b" ++ name ++ " " ++ member ++ " " ++ text ++ " | " ++ text' ++ "\x7d")
      ((.leftBrace, "\x7b") :: (.identifier, name) :: (.identifier, member) ::
        (pieces ++ (.bar, "|") :: (pieces' ++ [(.rightBrace, "\x7d")]))) where
  cuts := by
    have last := cuts_bar.join (body.cuts.before cuts_rightBrace (by decide))
    have bar := cuts_blank.join (set.cuts.before (cuts_blank.join last) (by decide))
    have rest := cuts_blank.join ((cuts_identifier named).before bar (by decide))
    have cuts := cuts_leftBrace.join ((cuts_identifier bound).before rest (by decide))
    simpa using cuts.strict
  opens := ⟨_, _, _, rfl, .inr (.inr rfl)⟩
  unmarked := by simp [set.unmarked, body.unmarked]

/-- Joining by commas marks nothing. -/
theorem unmarked_commas {parts : List (List Piece)} (all : ∀ pieces ∈ parts, Unmarked pieces) :
    Unmarked (commas parts) := by
  induction parts with
  | nil => simp [commas]
  | cons first rest ih =>
    have others := ih fun pieces inside => all pieces (List.mem_cons_of_mem _ inside)
    have here := all first List.mem_cons_self
    cases rest with
    | nil => exact here
    | cons second rest => simp [commas, here, others]

/-- Texts that show have no annotations. -/
theorem Shows.parts_unmarked {texts : List String} {parts : List (List Piece)}
    (all : List.Forall₂ (Shows v) texts parts) : ∀ pieces ∈ parts, Unmarked pieces := by
  intro pieces inside
  obtain ⟨i, bound, rfl⟩ := List.mem_iff_getElem.mp inside
  exact (all.get (by rw [all.length_eq]; exact bound) bound).unmarked

/-- A function before arguments with commas between them shows as the application. -/
theorem Shows.apply {texts : List String} {parts : List (List Piece)}
    (function : Shows v text pieces) (arguments : List.Forall₂ (Shows v) texts parts) :
    Shows v (text ++ "(" ++ ", ".intercalate texts ++ ")")
      (pieces ++ (.leftParen, "(") :: (commas parts ++ [(.rightParen, ")")])) where
  cuts := by
    have joined := cuts_commas (arguments.imp fun _ _ shows => shows.cuts)
    have rest := cuts_leftParen.join (joined.before cuts_rightParen (by decide))
    have cuts := function.cuts.before rest (by decide)
    simpa using cuts.strict
  opens := by
    obtain ⟨kind, word, more, rfl, begins⟩ := function.opens
    exact ⟨kind, word, _, rfl, begins⟩
  unmarked := by
    simp [function.unmarked, unmarked_commas (Shows.parts_unmarked arguments)]

/-- The text shows an operand that the term spells. -/
def AsOperand (v : Vocabulary) (text : String) (t : Term) : Prop :=
  ∃ pieces, Shows v text pieces ∧ ReadsOperand v pieces t

/-- The text shows the beginning of a formula that the term spells. -/
def AsTerm (v : Vocabulary) (text : String) (t : Term) : Prop :=
  ∃ pieces, Shows v text pieces ∧ ReadsTerm v pieces t

/-- What is written as an operand is written as a term. -/
theorem AsOperand.term {t : Term} : AsOperand v text t → AsTerm v text t :=
  fun ⟨pieces, shows, reads⟩ => ⟨pieces, shows, reads.term⟩

/-- Texts that show terms are texts of pieces that are read as the terms. -/
theorem asTerm_parts {texts : List String} {ts : List Term}
    (all : List.Forall₂ (AsTerm v) texts ts) :
    ∃ parts, List.Forall₂ (Shows v) texts parts ∧
      List.Forall₂ (fun pieces t => Opens v pieces ∧ ReadsTerm v pieces t) parts ts := by
  induction all with
  | nil => exact ⟨[], .nil, .nil⟩
  | cons here _ ih =>
    obtain ⟨pieces, shows, reads⟩ := here
    obtain ⟨parts, allShow, allRead⟩ := ih
    exact ⟨pieces :: parts, .cons shows allShow, .cons ⟨shows.opens, reads⟩ allRead⟩

end Formula

/-! ## Written terms -/

/-- An application is its head applied to its arguments. -/
theorem Term.apps_head_args (t : Term) : t.head.apps t.args = t := by
  induction t with
  | app f x ihF _ =>
    rw [Term.head, Term.args, Term.apps, List.foldl_append]
    change Term.app (f.head.apps f.args) x = _
    rw [ihF]
  | const _ => rfl
  | var _ => rfl
  | lam _ _ _ => rfl

namespace Printer

variable {v : Vocabulary} {s s' : Supply} {p : Printer} {layout : Layout} {w : Word}

/-- A constant is written as an operand. -/
theorem constant_written (made : p.Made v s s') (readable : v.Readable) {c : Symbol}
    (spoken : (Term.const c).Spoken v) : AsOperand v (p.constant c) (.const c) := by
  obtain ⟨declared, τ, ⟨w, listed, is⟩, rfl⟩ := spoken
  have looked := readable.lookup listed
  have named := readable.identifiers w listed
  rw [Printer.constant, made.vocabulary, Symbol.under_name, ← Word.name_of_constant is, looked]
  cases w with
  | type => cases is
  | operator op =>
    cases is
    exact ⟨_, .bare named, readsOperand_bare looked rfl⟩
  | binder binder =>
    cases is
    exact ⟨_, .bare named, readsOperand_bare looked rfl⟩
  | setBuilder builder =>
    cases is
    exact ⟨_, .word named (.inr ⟨builder, looked⟩), readsOperand_builder looked⟩

/-- A variable is written as its name. -/
theorem variable_written {r : Symbol} (free : v.Free r.name) : AsOperand v r.name (.var r) :=
  ⟨_, .word free.identifier (.inl free.unreserved), readsOperand_var free.unreserved⟩

/-- An abstraction is written as an operand if its body is as a term. -/
theorem lambda_written {r : Symbol} {b : Term} (free : v.Free r.name)
    (body : AsTerm v (p.term b) b) :
    AsOperand v ("(\\" ++ r.name ++ "." ++ p.term b ++ ")") (.lam r b) := by
  obtain ⟨pieces, shows, reads⟩ := body
  exact ⟨_, shows.lambda free.identifier, readsOperand_lam free.unreserved shows.opens reads⟩

/-- A term that a word lays out is written as an operand. -/
theorem form_written (made : p.Made v s s') (readable : v.Readable) {f x : Term}
    (writes : Writes v s s' (.app f x)) (found : p.layout? (.app f x) = some layout)
    (arguments : List.Forall₂ (AsTerm v) (p.args f) f.args) (operand : AsTerm v (p.term x) x)
    (body : ∀ r b, x = .lam r b → AsTerm v (p.body x) b) :
    AsOperand v (p.term (.app f x)) (.app f x) := by
  obtain ⟨w, listed, lays⟩ := made.laysOut readable.toWritable writes found
  have looked := readable.lookup listed
  have named := readable.identifiers w listed
  have spoken := writes.read.spoken
  rw [Printer.term, found]
  cases lays with
  | @unary op c x arity same =>
    obtain ⟨τ, rfl⟩ := readable.instance_of listed rfl spoken.1 same
    obtain ⟨pieces, shows, reads⟩ := operand
    obtain ⟨positive, below⟩ := readable.precedences op (Vocabulary.mem_operators.mpr listed)
    exact ⟨_, shows.unary named,
      readsOperand_unary looked arity shows.opens
        (reads.whole shows.opens (op.above_application positive below))⟩
  | @binary op c a x arity same =>
    obtain ⟨τ, rfl⟩ := readable.instance_of listed rfl spoken.1.1 same
    obtain ⟨pieces, shows, reads⟩ := operand
    obtain ⟨piecesA, showsA, readsA⟩ := (List.forall₂_cons.mp arguments).1
    obtain ⟨positive, below⟩ := readable.precedences op (Vocabulary.mem_operators.mpr listed)
    exact ⟨_, showsA.binary named shows,
      readsOperand_binary looked arity (by omega) below showsA.opens readsA
        (reads.whole shows.opens (op.above_application positive below))⟩
  | @binder binder c r b same =>
    obtain ⟨τ, rfl⟩ := readable.instance_of listed rfl spoken.1 same
    obtain ⟨pieces, shows, reads⟩ := body r b rfl
    have free : v.Free r.name := spoken.2.1
    exact ⟨_, shows.binder named free.identifier,
      readsOperand_binder looked free.unreserved shows.opens reads⟩
  | @setOf builder c r a b same =>
    obtain ⟨τ, rfl⟩ := readable.instance_of listed rfl spoken.1.1 same
    obtain ⟨pieces, shows, reads⟩ := body r b rfl
    obtain ⟨piecesA, showsA, readsA⟩ := (List.forall₂_cons.mp arguments).1
    have free : v.Free r.name := spoken.2.1
    have member := readable.memberships builder (Vocabulary.mem_setBuilders.mpr listed)
    exact ⟨_, .setOf free.identifier member showsA shows,
      readsOperand_setOf (readable.find_member listed) free.unreserved showsA.opens readsA
        shows.opens reads⟩

mutual

/-- The text of a term is read as the term. -/
theorem term_written (made : p.Made v s s') (readable : v.Readable) :
    ∀ t, Writes v s s' t → AsTerm v (p.term t) t
  | .const _, writes => by
    rw [Printer.term]
    exact (constant_written made readable writes.read.spoken).term
  | .var _, writes => by
    rw [Printer.term]
    exact (variable_written writes.read.spoken).term
  | .lam _ b, writes => by
    rw [Printer.term]
    exact (lambda_written writes.read.spoken.1 (term_written made readable b writes.body)).term
  | .app f x, writes => by
    have operand := term_written made readable x writes.argument
    have arguments := args_written made readable f writes.function
    cases found : p.layout? (.app f x) with
    | some layout =>
      exact (form_written made readable writes found arguments operand
        fun r b is => body_written made readable x writes.argument r b is).term
    | none =>
      obtain ⟨pieces, shows, reads⟩ := head_written made readable f writes.function
      obtain ⟨parts, allShow, allRead⟩ :=
        asTerm_parts (List.rel_append arguments (.cons operand .nil))
      rw [Printer.term, found, ← Term.apps_head_args (.app f x)]
      exact ⟨_, shows.apply allShow, readsTerm_apply reads allRead⟩

/-- The text of a head is read as the head. -/
theorem head_written (made : p.Made v s s') (readable : v.Readable) :
    ∀ t, Writes v s s' t → AsOperand v (p.head t) t.head
  | .const _, writes => by
    rw [Printer.head]
    exact constant_written made readable writes.read.spoken
  | .var _, writes => by
    rw [Printer.head]
    exact variable_written writes.read.spoken
  | .lam _ b, writes => by
    rw [Printer.head]
    exact lambda_written writes.read.spoken.1 (term_written made readable b writes.body)
  | .app f _, writes => by
    rw [Printer.head]
    exact head_written made readable f writes.function

/-- The texts of arguments are read as the arguments. -/
theorem args_written (made : p.Made v s s') (readable : v.Readable) :
    ∀ t, Writes v s s' t → List.Forall₂ (AsTerm v) (p.args t) t.args
  | .const _, _ => .nil
  | .var _, _ => .nil
  | .lam _ _, _ => .nil
  | .app f x, writes => by
    rw [Printer.args, Term.args]
    exact List.rel_append (args_written made readable f writes.function)
      (.cons (term_written made readable x writes.argument) .nil)

/-- The text of a body is read as the body. -/
theorem body_written (made : p.Made v s s') (readable : v.Readable) :
    ∀ t, Writes v s s' t → ∀ r b, t = .lam r b → AsTerm v (p.body t) b
  | .lam _ b, writes, _, _, is => by
    cases is
    rw [Printer.body]
    exact term_written made readable b writes.body
  | .const _, _, _, _, is => nomatch is
  | .var _, _, _, _, is => nomatch is
  | .app _ _, _, _, _, is => nomatch is

end

/-! ## Types are not written -/

/-- What is written for a constant does not depend on its type. -/
theorem constant_under (c : Symbol) (σ : Int → Ty) : p.constant (c.under σ) = p.constant c := by
  rw [Printer.constant, Printer.constant, Symbol.under_name]

/-- The bound name does not depend on types. -/
theorem boundName_under (t : Term) (σ : Int → Ty) : boundName (t.under σ) = boundName t := by
  cases t <;> rfl

mutual

/-- Terms that differ in their types only are written alike. -/
theorem term_under (made : p.Made v s s') (writable : v.Writable) {σ : Int → Ty} :
    ∀ t, Writes v s s' t → Writes v s s' (t.under σ) → p.term (t.under σ) = p.term t
  | .const c, _, _ => by
    rw [Term.under_const, Printer.term, Printer.term, constant_under]
  | .var _, _, _ => by
    rw [Term.under_var, Printer.term, Printer.term, Symbol.under_name]
  | .lam _ b, writes, writes' => by
    rw [Term.under_lam, Printer.term, Printer.term, Symbol.under_name,
      term_under made writable b writes.body writes'.body]
  | .app f x, writes, writes' => by
    have layout := made.layout?_under writable writes writes'
    rw [Term.under_app] at layout writes' ⊢
    rw [Printer.term, Printer.term, layout,
      term_under made writable x writes.argument writes'.argument,
      head_under made writable f writes.function writes'.function,
      args_under made writable f writes.function writes'.function,
      body_under made writable x writes.argument writes'.argument, boundName_under]

/-- What is written for a head does not depend on types. -/
theorem head_under (made : p.Made v s s') (writable : v.Writable) {σ : Int → Ty} :
    ∀ t, Writes v s s' t → Writes v s s' (t.under σ) → p.head (t.under σ) = p.head t
  | .const c, _, _ => by
    rw [Term.under_const, Printer.head, Printer.head, constant_under]
  | .var _, _, _ => by
    rw [Term.under_var, Printer.head, Printer.head, Symbol.under_name]
  | .lam _ b, writes, writes' => by
    rw [Term.under_lam, Printer.head, Printer.head, Symbol.under_name,
      term_under made writable b writes.body writes'.body]
  | .app f _, writes, writes' => by
    rw [Term.under_app, Printer.head, Printer.head,
      head_under made writable f writes.function writes'.function]

/-- What is written for arguments does not depend on types. -/
theorem args_under (made : p.Made v s s') (writable : v.Writable) {σ : Int → Ty} :
    ∀ t, Writes v s s' t → Writes v s s' (t.under σ) → p.args (t.under σ) = p.args t
  | .const _, _, _ => rfl
  | .var _, _, _ => rfl
  | .lam _ _, _, _ => rfl
  | .app f x, writes, writes' => by
    rw [Term.under_app, Printer.args, Printer.args,
      args_under made writable f writes.function writes'.function,
      term_under made writable x writes.argument writes'.argument]

/-- What is written for a body does not depend on types. -/
theorem body_under (made : p.Made v s s') (writable : v.Writable) {σ : Int → Ty} :
    ∀ t, Writes v s s' t → Writes v s s' (t.under σ) → p.body (t.under σ) = p.body t
  | .const _, _, _ => rfl
  | .var _, _, _ => rfl
  | .lam _ b, writes, writes' => by
    rw [Term.under_lam, Printer.body, Printer.body,
      term_under made writable b writes.body writes'.body]
  | .app _ _, _, _ => rfl

end

end Printer

end Turnstile
