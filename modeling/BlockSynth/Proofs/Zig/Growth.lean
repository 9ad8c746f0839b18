import BlockSynth.Proofs.Dispatch
import BlockSynth.Proofs.Reach
import BlockSynth.Proofs.Zig.Precedence

/-! # Names that are kept

A script only adds to the names of a session. So what a run says of an answer can be said step by
step, and what was named on the way has its name in the end.
-/
namespace BlockSynth.Zig

variable {α β : Type} {config : Config} {node : Node} {session between next : Session}

/-! ### Later sessions -/

/-- A session that has all names of another one. -/
structure Later (session next : Session) : Prop extends Named next where
  grown : Extends session.names next.names

theorem Later.refl (h : Named session) : Later session session :=
  ⟨h, Extends.refl _⟩

theorem Later.trans (h : Later session between) (h' : Later between next) : Later session next :=
  ⟨h'.toNamed, h.grown.trans h'.grown⟩

/-- The contract of what only adds names. -/
def adding (names : Registry) : Contract :=
  { naming with session := fun session => Named session ∧ Extends names session.names }

theorem extends_fresh (names : Registry) (name : String) : Extends names (names.fresh name).2 :=
  fun _ _ _ h => h

theorem extends_provide (ledger : Ledger) (unit key template : String) :
    Extends ledger.names (ledger.provide unit key template).2.names := by
  rcases provide_cases ledger unit key template with ⟨name, -, heq⟩ | ⟨-, hnames, -⟩
  · rw [heq]
    exact Extends.refl _
  · rw [hnames]
    exact extends_fresh _ _

theorem adding_upheld (names : Registry) (config : Config) :
    (adding names).Upheld (setting config) where
  resolve session space name h :=
    ⟨(h.1.resolve space name).1, (h.1.resolve space name).2,
      h.2.trans (extends_resolve session.names space name)⟩
  fresh session name h :=
    ⟨(h.1.fresh name).1, (h.1.fresh name).2, h.2.trans (extends_fresh session.names name)⟩
  provide session key template _ h :=
    ⟨(h.1.provide _ key template).1, (h.1.provide _ key template).2,
      h.2.trans (extends_provide session.toLedger _ key template)⟩
  require _ _ _ _ h := ⟨⟨h.1.names, h.1.realized⟩, h.2⟩
  define _ _ _ _ h := ⟨⟨h.1.names, h.1.realized⟩, h.2⟩
  loops _ _ h := ⟨⟨h.1.names, h.1.realized⟩, h.2⟩
  wrap _ _ _ _ _ := trivial
  statement _ _ _ _ _ := trivial
  naked _ _ _ _ _ := trivial
  chain_nil := trivial
  chain_append _ _ _ _ := trivial
  lines _ _ _ := trivial
  loopBody _ _ _ _ := trivial
  loop _ := trivial
  emitter _ emitter _ node := (emitter.script config node).meets_of_forall (fun _ => trivial)
    (fun _ => trivial) (fun _ => trivial) fun _ => trivial

theorem later_of_ask (hsession : Named session) {script : Script α} {answer : α}
    (h : (setting config).ask node script session = .ok answer next) : Later session next := by
  have hkeeps :=
    (adding_upheld session.names config).ask node (script.meets_of_forall (fun _ => trivial)
    (fun _ => trivial) (fun _ => trivial) fun _ => trivial : script.Meets _ fun _ => True)
  obtain ⟨hnext, hgrown⟩ := (hkeeps.of_ok ⟨hsession, Extends.refl _⟩ h).2
  exact ⟨hnext, hgrown⟩

theorem named_resolve (hsession : Named session) {name word : String}
    (h : Synth.onLedger (·.resolve .variable name) session = .ok word next) :
    IsName word ∧ Named next ∧ Extends session.names next.names ∧
    next.names.lookup .variable name = some word := by
  obtain ⟨rfl, rfl⟩ := EStateM.Result.ok.inj h
  have hresolved := hsession.resolve .variable name
  exact ⟨hresolved.1, hresolved.2, extends_resolve session.names .variable name,
    Registry.lookup_resolve session.names .variable name⟩

/-! ### Runs that succeed -/

/-- If the script runs to its end, the answer and the session behind it are as wanted. -/
def Gives (config : Config) (node : Node) (script : Script α) (session : Session)
    (post : α → Session → Prop) : Prop :=
  ∀ answer next, (setting config).ask node script session = .ok answer next → post answer next

theorem Gives.pure {post : α → Session → Prop} {answer : α} (h : post answer session) :
    Gives config node (Pure.pure answer) session post := by
  rintro _ _ ⟨⟩
  exact h

theorem Gives.mono {script : Script α} {post post' : α → Session → Prop}
    (h : Gives config node script session post)
    (himp : ∀ answer next, post answer next → post' answer next) :
    Gives config node script session post' :=
  fun answer next hrun => himp answer next (h answer next hrun)

/-- What comes behind a step has its names to go by. -/
theorem Gives.bind {script : Script α} {continuation : α → Script β}
    {middle : α → Session → Prop} {post : β → Session → Prop}
    (h : Gives config node script session middle) (hsession : Named session)
    (hrest : ∀ answer between, Later session between → middle answer between →
      Gives config node (continuation answer) between post) :
    Gives config node (script >>= continuation) session post := by
  intro result last hrun
  rw [Setting.ask_bind] at hrun
  obtain ⟨answer, between, hstep, hlast⟩ := Synth.ok_of_bind hrun
  exact hrest answer between (later_of_ask hsession hstep)
    (h answer between hstep) result last hlast

theorem gives_any (script : Script α) : Gives config node script session fun _ _ => True :=
  fun _ _ _ => trivial

theorem gives_choose (field : String) (choice : Option α) :
    Gives config node (choose node field choice) session fun answer _ => choice = some answer := by
  intro answer next hrun
  cases choice with
  | none => cases hrun
  | some chosen =>
    cases hrun
    exact rfl

theorem gives_askHelper (key template : String) :
    Gives config node (.askHelper key template) session fun helper next =>
      ((key, template), helper) ∈ next.helpers.realized := by
  intro helper next hrun
  obtain ⟨rfl, rfl⟩ := EStateM.Result.ok.inj hrun
  show ((key, template), (session.provide config.indentUnit key template).1) ∈
    (session.provide config.indentUnit key template).2.helpers.realized
  rcases provide_cases session.toLedger config.indentUnit key template with ⟨name, hmem, heq⟩
    | ⟨hname, -, hrealized, -⟩
  · rw [heq]
    exact hmem
  · rw [hrealized, hname]
    exact List.mem_cons_self

end BlockSynth.Zig
