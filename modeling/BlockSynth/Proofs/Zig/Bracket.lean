import BlockSynth.Proofs.Zig.Emitted
import Mathlib.Data.List.Forall2

/-! # Marks on a path

Injected text that calls a word with the id of its node leaves a mark whenever a path comes to it. A
block of whole statements is framed if the marks before and after statements come in pairs on every
path through it. A path that jumps ends with the mark before the loop that it belongs to, whose mark
after the loop is the next to come.
-/
namespace BlockSynth.Zig

inductive Role
  | before
  | after
  | trap
  deriving DecidableEq, Repr

/-- The place of an injected call, and the literal that it is given. -/
structure Mark where
  role : Role
  literal : List Char
  deriving DecidableEq, Repr

/-- The mark for the node with the given id. -/
def Mark.of (role : Role) (id : String) : Mark :=
  ⟨role, (quote id).toList⟩

/-- The marks around one execution of a statement. -/
def bracket (id : String) : List Mark :=
  [.of .before id, .of .after id]

/-- The words that are called before and after every statement and at the top of every loop. -/
structure Probes where
  before : String
  after : String
  trap : String
  deriving DecidableEq, Repr

namespace Probes

def role? (probes : Probes) (word : List Char) : Option Role :=
  if word = probes.before.toList then some .before
  else if word = probes.after.toList then some .after
  else if word = probes.trap.toList then some .trap
  else none

/-- The mark that a statement leaves, if it calls one of the words with a literal. -/
def mark? (probes : Probes) : Event → Option Mark
  | .did [⟨.word word, _⟩, ⟨.opening '(', _⟩, ⟨.literal, literal⟩, ⟨.closing ')', _⟩] =>
    (probes.role? word).map (⟨·, literal⟩)
  | _ => none

def marks (probes : Probes) (trace : List Event) : List Mark :=
  trace.filterMap probes.mark?

/-- The marks before and after statements. -/
def brackets (probes : Probes) (trace : List Event) : List Mark :=
  (probes.marks trace).filter (·.role != .trap)

/-- What happens until the next statement begins. -/
def untilStatement (probes : Probes) (trace : List Event) : List Event :=
  trace.takeWhile fun event => !(probes.mark? event).any (·.role == .before)

@[simp] theorem marks_nil (probes : Probes) : probes.marks [] = [] := rfl

@[simp] theorem marks_append (probes : Probes) (trace more : List Event) :
    probes.marks (trace ++ more) = probes.marks trace ++ probes.marks more := by
  simp [marks]

@[simp] theorem brackets_nil (probes : Probes) : probes.brackets [] = [] := rfl

@[simp] theorem brackets_append (probes : Probes) (trace more : List Event) :
    probes.brackets (trace ++ more) = probes.brackets trace ++ probes.brackets more := by
  simp [brackets]

@[simp] theorem marks_entered (probes : Probes) (body : Block) (trace : List Event) :
    probes.marks (.entered body :: trace) = probes.marks trace := rfl

@[simp] theorem brackets_entered (probes : Probes) (body : Block) (trace : List Event) :
    probes.brackets (.entered body :: trace) = probes.brackets trace := rfl

/-- Words that can be told from each other and from the rest of a program. -/
structure Apt (probes : Probes) : Prop where
  before : IsName probes.before
  after : IsName probes.after
  trap : IsName probes.trap
  apart : [probes.before, probes.after, probes.trap].Nodup

end Probes

/-- The call of a word with the literal of an id. -/
def call (word id : String) : List Lexeme :=
  [{ token := .word word.toList }, { token := .opening '(' },
    { token := .literal, text := (quote id).toList }, { token := .closing ')' }]

section Marks

variable {probes : Probes}

theorem Probes.Apt.isPlain_of_role? (h : probes.Apt) {word : List Char} {role : Role}
    (hrole : probes.role? word = some role) : IsPlain word := by
  unfold role? at hrole
  split at hrole
  · rename_i heq
    exact heq ▸ h.before.isPlain
  · split at hrole
    · rename_i heq
      exact heq ▸ h.after.isPlain
    · split at hrole
      · rename_i heq
        exact heq ▸ h.trap.isPlain
      · simp at hrole

theorem Probes.Apt.mark?_eq_none (h : probes.Apt) {code : List Lexeme}
    (hcode : ¬IsCall (code.map Lexeme.token)) : probes.mark? (.did code) = none := by
  unfold mark?
  split
  · rename_i word _ _ literal _ heq
    obtain rfl := Event.did.inj heq
    cases hrole : probes.role? word with
    | none => rfl
    | some role => exact absurd ⟨word, h.isPlain_of_role? hrole, rfl⟩ hcode
  · rfl

theorem Probes.mark?_call (word id : String) :
    probes.mark? (.did (call word id)) = (probes.role? word.toList).map (Mark.of · id) := rfl

theorem Probes.mark?_before (probes : Probes) (id : String) :
    probes.mark? (.did (call probes.before id)) = some (.of .before id) := by
  simp [mark?_call, role?]

theorem Probes.Apt.mark?_after (h : probes.Apt) (id : String) :
    probes.mark? (.did (call probes.after id)) = some (.of .after id) := by
  have hapart := h.apart
  simp only [List.nodup_cons, List.mem_cons, List.not_mem_nil, or_false, not_or] at hapart
  simp [mark?_call, role?, String.toList_inj, Ne.symm hapart.1.1]

theorem Probes.Apt.mark?_trap (h : probes.Apt) (id : String) :
    probes.mark? (.did (call probes.trap id)) = some (.of .trap id) := by
  have hapart := h.apart
  simp only [List.nodup_cons, List.mem_cons, List.not_mem_nil, or_false, not_or] at hapart
  simp [mark?_call, role?, String.toList_inj, Ne.symm hapart.1.2, Ne.symm hapart.2.1]

/-- A quiet block leaves no mark. -/
theorem Probes.Apt.marks_eq_nil (h : probes.Apt) {block : Block} (hquiet : block.Quiet)
    {trace : List Event} {exit : Option Jump} (hruns : block.Runs trace exit) :
    probes.marks trace = [] := by
  refine List.filterMap_eq_nil_iff.mpr fun event hevent => ?_
  obtain ⟨code, rfl, hcode⟩ := (hquiet.runs trace exit hruns).2 event hevent
  exact h.mark?_eq_none hcode

theorem Probes.brackets_eq_nil {trace : List Event} (h : probes.marks trace = []) :
    probes.brackets trace = [] := by
  simp [brackets, h]

theorem Probes.brackets_before (probes : Probes) (id : String) (trace : List Event) :
    probes.brackets (.did (call probes.before id) :: trace) =
      .of .before id :: probes.brackets trace := by
  simp [brackets, marks, mark?_before, Mark.of]

theorem Probes.Apt.brackets_after (h : probes.Apt) (id : String) (trace : List Event) :
    probes.brackets (.did (call probes.after id) :: trace) =
      .of .after id :: probes.brackets trace := by
  simp [brackets, marks, h.mark?_after, Mark.of]

theorem Probes.Apt.brackets_trap (h : probes.Apt) (id : String) (trace : List Event) :
    probes.brackets (.did (call probes.trap id) :: trace) = probes.brackets trace := by
  simp [brackets, marks, h.mark?_trap, Mark.of]

end Marks

/-! ### Paths through sequences -/

namespace Block

theorem runs_done {trace : List Event} {exit : Option Jump} (h : Block.done.Runs trace exit) :
    trace = [] ∧ exit = none := by
  cases h with
  | done => exact ⟨rfl, rfl⟩

theorem runs_simple {code : List Lexeme} {next : Block} {trace : List Event} {exit : Option Jump}
    (h : (Block.simple code next).Runs trace exit) :
    ∃ rest, trace = .did code :: rest ∧ next.Runs rest exit := by
  cases h with
  | simple hnext => exact ⟨_, rfl, hnext⟩

/-- Behind a quiet block comes the rest. -/
theorem Quiet.runs_append {block more : Block} (h : block.Quiet) {trace : List Event}
    {exit : Option Jump} (hruns : (block.append more).Runs trace exit) :
    ∃ first second, trace = first ++ second ∧ block.Runs first none ∧ more.Runs second exit := by
  rcases Block.runs_append hruns with hthrough | ⟨kind, -, hleft⟩
  · exact hthrough
  · exact absurd (h.runs _ _ hleft).1 (by simp)

/-- Whenever the body of a loop is entered, the loop is one of the given ones, and its
body runs next. -/
def Entries (loops : List Block) (trace : List Event) : Prop :=
  ∀ ⦃before : List Event⦄ ⦃body : Block⦄ ⦃after : List Event⦄,
    trace = before ++ .entered body :: after →
    body ∈ loops ∧ ∃ round rest jumped, after = round ++ rest ∧ body.Runs round jumped

theorem Entries.nil (loops : List Block) : Entries loops [] :=
  fun _ _ _ heq => absurd heq (by simp)

theorem Entries.mono {loops whole : List Block} {trace : List Event} (h : Entries loops trace)
    (hsub : loops ⊆ whole) : Entries whole trace := by
  intro before body after heq
  obtain ⟨hmem, hround⟩ := h heq
  exact ⟨hsub hmem, hround⟩

theorem Entries.did {loops : List Block} {trace : List Event}
    (h : Entries loops trace) (code : List Lexeme) :
    Entries loops (.did code :: trace) := by
  intro before body after heq
  cases before with
  | nil => simp at heq
  | cons event before => exact h (List.cons.inj heq).2

theorem Entries.append {loops : List Block} {first second : List Event}
    (hfirst : Entries loops first) (hsecond : Entries loops second) :
    Entries loops (first ++ second) := by
  intro before body after heq
  -- An entry is in the first part or in the second one, and a round of the first part
  -- stays a round.
  rcases List.append_eq_append_iff.mp heq with ⟨middle, rfl, hrest⟩ | ⟨middle, rfl, hrest⟩
  · exact hsecond hrest
  · cases middle with
    | nil =>
      have hentry : second = [] ++ .entered body :: after := by simpa using hrest.symm
      exact hsecond hentry
    | cons event middle =>
      obtain ⟨rfl, rfl⟩ := List.cons.inj hrest
      obtain ⟨hmem, round, rest, jumped, rfl, hruns⟩ := hfirst rfl
      exact ⟨hmem, round, rest ++ second, jumped, by simp, hruns⟩

theorem Entries.entered {loops : List Block} {body : Block}
    {round rest : List Event} {jumped : Option Jump} (hmem : body ∈ loops)
    (hruns : body.Runs round jumped) (h : Entries loops (round ++ rest)) :
    Entries loops (.entered body :: (round ++ rest)) := by
  intro before other after heq
  cases before with
  | nil =>
    obtain ⟨hbody, rfl⟩ := List.cons.inj heq
    obtain rfl := Event.entered.inj hbody
    exact ⟨hmem, round, rest, jumped, rfl, hruns⟩
  | cons event before => exact h (List.cons.inj heq).2

/-- Where a path enters the body of a loop, it runs that body next. -/
theorem Runs.entered {block : Block} {trace : List Event}
    {exit : Option Jump} (h : block.Runs trace exit) :
    Entries block.loops trace := by
  induction h with
  | done => exact Entries.nil _
  | simple _ ih => exact ih.did _
  | jump => exact Entries.nil _
  | first _ _ ih ihnext =>
    refine (ih.mono ?_).append (ihnext.mono ?_)
    · exact fun _ hmem => List.mem_append_left _ (List.mem_append_left _ hmem)
    · exact fun _ hmem => List.mem_append_right _ hmem
  | first_jump _ ih =>
    exact ih.mono fun _ hmem => List.mem_append_left _ (List.mem_append_left _ hmem)
  | second _ _ ih ihnext =>
    refine (ih.mono ?_).append (ihnext.mono ?_)
    · exact fun _ hmem => List.mem_append_left _ (List.mem_append_right _ hmem)
    · exact fun _ hmem => List.mem_append_right _ hmem
  | second_jump _ ih =>
    exact ih.mono fun _ hmem => List.mem_append_left _ (List.mem_append_right _ hmem)
  | loop_over _ ih => exact ih.mono fun _ hmem => List.mem_append_right _ hmem
  | loop_left hbody _ ih ihnext =>
    refine .entered List.mem_cons_self hbody ((ih.mono ?_).append (ihnext.mono ?_))
    · exact fun _ hmem => List.mem_cons_of_mem _ (List.mem_append_left _ hmem)
    · exact fun _ hmem => List.mem_cons_of_mem _ (List.mem_append_right _ hmem)
  | loop_round hbody _ _ ih ihnext =>
    refine .entered List.mem_cons_self hbody ((ih.mono ?_).append ihnext)
    exact fun _ hmem => List.mem_cons_of_mem _ (List.mem_append_left _ hmem)

end Block

/-! ### Framed blocks -/

/-- The marks of a path that ends with the given jump, inside the given loop. -/
def Probes.Bracketed (probes : Probes) (inner : Option String) (trace : List Event) :
    Option Jump → Prop
  | none => ∃ order : List String, probes.brackets trace = order.flatMap bracket
  | some _ => ∃ (order : List String) (loop : String), inner = some loop ∧
    probes.brackets trace = order.flatMap bracket ++ [.of .before loop]

/-- A loop body in which every round comes to the trap before the first statement. -/
def Probes.Trapped (probes : Probes) (id : String) (body : Block) : Prop :=
  ∀ round jumped, body.Runs round jumped → ∃ lead event rest, round = lead ++ event :: rest ∧
    probes.marks lead = [.of .after id, .of .trap id] ∧
      (probes.mark? event).any (·.role == .before) = true

/-- A sequence of whole statements, the ids being those of its loops. -/
structure Framed (probes : Probes) (inner : Option String) (ids : List String)
    (block : Block) : Prop where
  runs : ∀ trace exit, block.Runs trace exit → probes.Bracketed inner trace exit
  starts : ∀ trace exit, block.Runs trace exit →
    trace = [] ∧ exit = none ∨ ∃ id rest, trace = .did (call probes.before id) :: rest
  loops : List.Forall₂ probes.Trapped ids block.loops

/-- The rest of a statement that has made its mark before it. -/
structure Begun (probes : Probes) (inner : Option String)
    (id : String) (ids : List String) (block : Block) :
    Prop where
  runs : ∀ trace exit, block.Runs trace exit →
    probes.Bracketed inner (.did (call probes.before id) :: trace) exit
  loops : List.Forall₂ probes.Trapped ids block.loops

/-- The block of an injected call. -/
def probe (word id : String) : Block :=
  .simple (call word id) .done

theorem runs_probe {word id : String} {next : Block} {trace : List Event} {exit : Option Jump}
    (h : ((probe word id).append next).Runs trace exit) :
    ∃ rest, trace = .did (call word id) :: rest ∧ next.Runs rest exit :=
  Block.runs_simple h

section Framing

variable {probes : Probes} {inner : Option String} {id : String} {ids others : List String}
    {block more : Block}

theorem Probes.Bracketed.prepend {trace : List Event} {exit : Option Jump}
    (h : probes.Bracketed inner trace exit) {lead : List Event}
    {order : List String} (hlead : probes.brackets lead = order.flatMap bracket) :
    probes.Bracketed inner (lead ++ trace) exit := by
  cases exit with
  | none =>
    obtain ⟨rest, hrest⟩ := h
    exact ⟨order ++ rest, by simp [hlead, hrest]⟩
  | some kind =>
    obtain ⟨rest, loop, hinner, hrest⟩ := h
    exact ⟨order ++ rest, loop, hinner, by simp [hlead, hrest]⟩

theorem framed_done : Framed probes inner [] .done where
  runs trace exit h := by
    obtain ⟨rfl, rfl⟩ := Block.runs_done h
    exact ⟨[], rfl⟩
  starts trace exit h := .inl (Block.runs_done h)
  loops := .nil

theorem Framed.append (h : Framed probes inner ids block) (hm : Framed probes inner others more) :
    Framed probes inner (ids ++ others) (block.append more) where
  runs trace exit hruns := by
    rcases Block.runs_append hruns with ⟨first, second, rfl, hfirst, hsecond⟩ | ⟨kind, rfl, hleft⟩
    · obtain ⟨order, horder⟩ := h.runs first none hfirst
      exact (hm.runs second exit hsecond).prepend horder
    · exact h.runs trace (some kind) hleft
  starts trace exit hruns := by
    rcases Block.runs_append hruns with ⟨first, second, rfl, hfirst, hsecond⟩ | ⟨kind, rfl, hleft⟩
    · rcases h.starts first none hfirst with ⟨rfl, -⟩ | ⟨id, rest, rfl⟩
      · exact hm.starts second exit hsecond
      · exact .inr ⟨id, rest ++ second, rfl⟩
    · exact h.starts trace (some kind) hleft
  loops := by
    rw [Block.loops_append]
    exact List.rel_append h.loops hm.loops

theorem Begun.framed (h : Begun probes inner id ids block) :
    Framed probes inner ids ((probe probes.before id).append block) where
  runs trace exit hruns := by
    obtain ⟨rest, rfl, hrest⟩ := runs_probe hruns
    exact h.runs rest exit hrest
  starts trace exit hruns := by
    obtain ⟨rest, rfl, -⟩ := runs_probe hruns
    exact .inr ⟨id, rest, rfl⟩
  loops := h.loops

/-! ### Statements -/

/-- A statement that only goes on. -/
theorem begun_plain (h : probes.Apt) (hquiet : block.Quiet) :
    Begun probes inner id [] (block.append (probe probes.after id)) where
  runs trace exit hruns := by
    obtain ⟨first, second, rfl, hfirst, hsecond⟩ := hquiet.runs_append hruns
    obtain ⟨rest, rfl, hrest⟩ := Block.runs_simple hsecond
    obtain ⟨rfl, rfl⟩ := Block.runs_done hrest
    refine ⟨[id], ?_⟩
    simp [Probes.brackets_before, h.brackets_after,
      Probes.brackets_eq_nil (h.marks_eq_nil hquiet hfirst), bracket]
  loops := by
    rw [Block.loops_append, hquiet.loops]
    exact .nil

/-- A jump out of the loop around it. -/
theorem begun_jump (h : probes.Apt) (loop : String) (kind : Jump) :
    Begun probes (some loop) id []
      ((probe probes.after id).append ((probe probes.before loop).append (.jump kind .done))) where
  runs trace exit hruns := by
    obtain ⟨rest, rfl, hrest⟩ := runs_probe hruns
    obtain ⟨last, rfl, hlast⟩ := runs_probe hrest
    cases hlast with
    | jump =>
      refine ⟨[id], loop, rfl, ?_⟩
      simp [Probes.brackets_before, h.brackets_after, bracket]
  loops := .nil

/-- A branch makes the mark after the conditional first. -/
theorem begun_branch (h : probes.Apt) (hblock : Framed probes inner ids block) :
    Begun probes inner id ids ((probe probes.after id).append block) where
  runs trace exit hruns := by
    obtain ⟨rest, rfl, hrest⟩ := runs_probe hruns
    refine @Probes.Bracketed.prepend _ _ _ _ (hblock.runs rest exit hrest)
      [.did (call probes.before id), .did (call probes.after id)] [id] ?_
    simp [Probes.brackets_before, h.brackets_after, bracket]
  loops := hblock.loops

theorem Begun.choice (h : Begun probes inner id ids block)
    (hm : Begun probes inner id others more) :
    Begun probes inner id (ids ++ others) (.choice block more .done) where
  runs trace exit hruns := by
    cases hruns with
    | first hbranch hnext =>
      obtain ⟨rfl, rfl⟩ := Block.runs_done hnext
      rw [List.append_nil]
      exact h.runs _ _ hbranch
    | first_jump hbranch => exact h.runs _ _ hbranch
    | second hbranch hnext =>
      obtain ⟨rfl, rfl⟩ := Block.runs_done hnext
      rw [List.append_nil]
      exact hm.runs _ _ hbranch
    | second_jump hbranch => exact hm.runs _ _ hbranch
  loops := by
    simp only [Block.loops, List.append_nil]
    exact List.rel_append h.loops hm.loops

theorem begun_choices {arms : List (List String × Block)}
    (h : ∀ arm ∈ arms, Begun probes inner id arm.1 arm.2) (hm : Begun probes inner id others more) :
    Begun probes inner id (arms.flatMap Prod.fst ++ others)
      (.choices (arms.map Prod.snd) more) := by
  induction arms with
  | nil => exact hm
  | cons arm rest ih =>
    rw [List.forall_mem_cons] at h
    rw [List.flatMap_cons, List.append_assoc]
    exact h.1.choice (ih h.2)

/-! ### Loops -/

/-- The marks of one round: the mark after the loop statement, those of the statements inside, and
the mark before the loop statement. -/
def Probes.Round (probes : Probes) (id : String) (round : List Event) : Prop :=
  ∃ order : List String,
    probes.brackets round = .of .after id :: (order.flatMap bracket ++ [.of .before id])

/-- Between the mark before a loop and the one after it the marks of its rounds come in pairs. -/
theorem brackets_loop {body : Block}
    (hround : ∀ round jumped, body.Runs round jumped → probes.Round id round)
    {trace : List Event} {exit : Option Jump} (h : (Block.loop body .done).Runs trace exit) :
    exit = none ∧ ∃ order : List String,
      .of .before id :: (probes.brackets trace ++ [.of .after id]) = order.flatMap bracket := by
  generalize hwhole : Block.loop body .done = whole at h
  induction h with
  | loop_over hnext =>
    obtain ⟨rfl, rfl⟩ := Block.loop.inj hwhole
    obtain ⟨rfl, rfl⟩ := Block.runs_done hnext
    exact ⟨rfl, [id], rfl⟩
  | loop_left hbody hnext =>
    obtain ⟨rfl, rfl⟩ := Block.loop.inj hwhole
    obtain ⟨rfl, rfl⟩ := Block.runs_done hnext
    obtain ⟨order, horder⟩ := hround _ _ hbody
    exact ⟨rfl, id :: order ++ [id], by simp [horder, bracket]⟩
  | loop_round hbody _ _ _ ih =>
    obtain ⟨rfl, rfl⟩ := Block.loop.inj hwhole
    obtain ⟨rfl, rest, hrest⟩ := ih rfl
    obtain ⟨order, horder⟩ := hround _ _ hbody
    refine ⟨rfl, id :: order ++ rest, ?_⟩
    simp [horder, ← hrest, bracket]
  | done => simp at hwhole
  | simple => simp at hwhole
  | jump => simp at hwhole
  | first => simp at hwhole
  | first_jump => simp at hwhole
  | second => simp at hwhole
  | second_jump => simp at hwhole

/-- The body of a loop, with quiet statements at its top and at its end. -/
def loopBlock (probes : Probes) (id : String) (lead block tail : Block) : Block :=
  lead.append ((probe probes.after id).append ((probe probes.trap id).append
    (block.append ((probe probes.before id).append tail))))

/-- A round makes the marks of its top, and then those of the statements inside up to
the first jump. -/
theorem runs_loopBlock (h : probes.Apt) {lead tail : Block} (hlead : lead.Quiet)
    (htail : tail.Quiet) {round : List Event} {jumped : Option Jump}
    (hruns : (loopBlock probes id lead block tail).Runs round jumped) :
    ∃ first rest,
      round = first ++ .did (call probes.after id) :: .did (call probes.trap id) :: rest ∧
      probes.marks first = [] ∧
      ((∃ inside last,
        rest = inside ++ .did (call probes.before id) :: last ∧ block.Runs inside none ∧
        probes.marks last = []) ∨ ∃ kind, block.Runs rest (some kind)) := by
  obtain ⟨first, second, rfl, hfirst, hsecond⟩ := hlead.runs_append hruns
  obtain ⟨third, rfl, hthird⟩ := runs_probe hsecond
  obtain ⟨rest, rfl, hrest⟩ := runs_probe hthird
  refine ⟨first, rest, rfl, h.marks_eq_nil hlead hfirst, ?_⟩
  rcases Block.runs_append hrest with ⟨inside, last, rfl, hinside, hlast⟩ | ⟨kind, rfl, hleft⟩
  · obtain ⟨ending, rfl, hending⟩ := runs_probe hlast
    exact .inl ⟨inside, ending, rfl, hinside, h.marks_eq_nil htail hending⟩
  · exact .inr ⟨kind, hleft⟩

theorem round_loopBlock (h : probes.Apt) {lead tail : Block} (hlead : lead.Quiet)
    (htail : tail.Quiet) (hblock : Framed probes (some id) ids block) {round : List Event}
    {jumped : Option Jump} (hruns : (loopBlock probes id lead block tail).Runs round jumped) :
    probes.Round id round := by
  obtain ⟨first, rest, rfl, hfirst, hrest⟩ := runs_loopBlock h hlead htail hruns
  have hnone := Probes.brackets_eq_nil hfirst
  rcases hrest with ⟨inside, last, rfl, hinside, hlast⟩ | ⟨kind, hleft⟩
  · obtain ⟨order, horder⟩ := hblock.runs inside none hinside
    refine ⟨order, ?_⟩
    simp [hnone, h.brackets_after, h.brackets_trap, Probes.brackets_before, horder,
      Probes.brackets_eq_nil hlast]
  · obtain ⟨order, loop, hloop, horder⟩ := hblock.runs rest (some kind) hleft
    obtain rfl := Option.some.inj hloop
    refine ⟨order, ?_⟩
    simp [hnone, h.brackets_after, h.brackets_trap, horder]

theorem trapped_loopBlock (h : probes.Apt) {lead tail : Block} (hlead : lead.Quiet)
    (htail : tail.Quiet) (hblock : Framed probes (some id) ids block) :
    probes.Trapped id (loopBlock probes id lead block tail) := by
  intro round jumped hruns
  obtain ⟨first, rest, rfl, hfirst, hrest⟩ := runs_loopBlock h hlead htail hruns
  have hnext : ∃ loop others, rest = .did (call probes.before loop) :: others := by
    rcases hrest with ⟨inside, last, rfl, hinside, -⟩ | ⟨kind, hleft⟩
    · rcases hblock.starts inside none hinside with ⟨rfl, -⟩ | ⟨loop, others, rfl⟩
      · exact ⟨id, last, rfl⟩
      · exact ⟨loop, _, rfl⟩
    · rcases hblock.starts rest (some kind) hleft with ⟨-, hnone⟩ | hstart
      · simp at hnone
      · exact hstart
  obtain ⟨loop, others, rfl⟩ := hnext
  refine ⟨first ++ [.did (call probes.after id), .did (call probes.trap id)],
    .did (call probes.before loop), others, by simp, ?_, ?_⟩
  · rw [Probes.marks_append, hfirst]
    simp [Probes.marks, h.mark?_after, h.mark?_trap]
  · rw [Probes.mark?_before]
    rfl

/-- Until the next statement begins, a round makes the marks of its top and no others. -/
theorem Probes.Trapped.marks_untilStatement {body : Block}
    (h : probes.Trapped id body) {round : List Event} {jumped : Option Jump}
    (hruns : body.Runs round jumped) (later : List Event) :
    probes.marks (probes.untilStatement (round ++ later)) = [.of .after id, .of .trap id] := by
  obtain ⟨lead, event, rest, rfl, hmarks, hevent⟩ := h round jumped hruns
  have hlead : ∀ first ∈ lead, (!(probes.mark? first).any (·.role == .before)) = true := by
    intro first hfirst
    cases hmark : probes.mark? first with
    | none => rfl
    | some mark =>
      have hmem : mark ∈ probes.marks lead := List.mem_filterMap.mpr ⟨first, hfirst, hmark⟩
      rw [hmarks, List.mem_cons, List.mem_singleton] at hmem
      rcases hmem with rfl | rfl
      · rfl
      · rfl
  have huntil : probes.untilStatement (lead ++ event :: rest ++ later) = lead := by
    rw [untilStatement, List.append_assoc, List.takeWhile_append_of_pos hlead, List.cons_append,
      List.takeWhile_cons, hevent]
    simp
  rw [huntil, hmarks]

/-- A loop behind quiet statements. -/
theorem begun_loop (h : probes.Apt) {setup lead tail : Block} (hsetup : setup.Quiet)
    (hlead : lead.Quiet) (htail : tail.Quiet) (hblock : Framed probes (some id) ids block) :
    Begun probes inner id (id :: ids)
      ((setup.append (.loop (loopBlock probes id lead block tail) .done)).append
      (probe probes.after id)) where
  runs trace exit hruns := by
    rw [Block.append_assoc] at hruns
    obtain ⟨first, second, rfl, hfirst, hsecond⟩ := hsetup.runs_append hruns
    have hrounds : ∀ {trace exit},
        (Block.loop (loopBlock probes id lead block tail) .done).Runs trace exit → _ :=
      fun {_ _} => brackets_loop fun round jumped => round_loopBlock h hlead htail hblock
    rcases Block.runs_append hsecond with ⟨rounds, last, rfl, hloop, hlast⟩ | ⟨kind, rfl, hleft⟩
    · obtain ⟨rest, rfl, hrest⟩ := Block.runs_simple hlast
      obtain ⟨rfl, rfl⟩ := Block.runs_done hrest
      obtain ⟨-, order, horder⟩ := hrounds hloop
      refine ⟨order, ?_⟩
      rw [← horder]
      simp [Probes.brackets_before, h.brackets_after,
        Probes.brackets_eq_nil (h.marks_eq_nil hsetup hfirst)]
    · exact absurd (hrounds hleft).1 (by simp)
  loops := by
    have hinside : (loopBlock probes id lead block tail).loops = block.loops := by
      simp [loopBlock, Block.loops_append, hlead.loops, htail.loops, probe, Block.loops]
    rw [Block.loops_append, Block.loops_append, hsetup.loops]
    simpa [Block.loops, hinside, probe] using
      List.Forall₂.cons (trapped_loopBlock h hlead htail hblock) hblock.loops

end Framing

end BlockSynth.Zig
