import BlockSynth.Proofs.Zig.Outline
import BlockSynth.Text.Quote

/-! # Scanning

Reading a text and taking the outline of its tokens is one pass over its characters. Closed text
brings the scan back to where it was, whatever brackets are open around it; fitting text is an
operand that exposes only operators of certain ranks.
-/
namespace BlockSynth.Zig

/-! ### Reading on -/

theorem Mode.run_cons (mode : Mode) (c : Char) (rest : List Char) :
    mode.run (c :: rest) = (mode.step c).bind fun result =>
      (result.2.run rest).map fun last => (result.1 ++ last.1, last.2) := by
  simp only [run]
  cases mode.step c with
  | none => rfl
  | some result => cases hrest : result.2.run rest <;> simp [hrest]

theorem Mode.run_append (mode : Mode) (text more : List Char) :
    mode.run (text ++ more) = (mode.run text).bind fun result =>
      (result.2.run more).map fun last => (result.1 ++ last.1, last.2) := by
  induction text generalizing mode with
  | nil =>
    simp only [List.nil_append, run, Option.bind_some]
    cases mode.run more <;> rfl
  | cons c rest ih =>
    simp only [List.cons_append, run]
    cases hstep : mode.step c with
    | none => rfl
    | some result =>
      obtain ⟨tokens, next⟩ := result
      simp only [Option.bind_eq_bind, Option.bind_some, ih next]
      cases next.run rest with
      | none => rfl
      | some middle =>
        cases hmore : middle.2.run more <;> simp [hmore]

theorem Mode.run_of_run {mode next : Mode} {text : List Char} {emitted : List Token}
    (h : mode.run text = some (emitted, next)) (more : List Char) :
    mode.run (text ++ more) = (next.run more).map fun last => (emitted ++ last.1, last.2) := by
  rw [run_append, h, Option.bind_some]

/-! ### Scans -/

abbrev Scan := Mode × Outline

namespace Scan

def step (scan : Scan) (c : Char) : Option Scan := do
  let (tokens, mode) ← scan.1.step c
  return (mode, ← scan.2.addAll tokens)

def read (scan : Scan) (text : List Char) : Option Scan :=
  text.foldlM step scan

@[simp] theorem read_nil (scan : Scan) : scan.read [] = some scan := rfl

theorem read_cons (scan : Scan) (c : Char) (rest : List Char) :
    scan.read (c :: rest) = (scan.step c).bind (read · rest) := by
  simp [read]

theorem read_append (scan : Scan) (text more : List Char) :
    scan.read (text ++ more) = (scan.read text).bind (read · more) := by
  simp [read]

theorem read_of_read {scan next : Scan} {text : List Char} (h : scan.read text = some next)
    (more : List Char) : scan.read (text ++ more) = next.read more := by
  rw [read_append, h, Option.bind_some]

end Scan

theorem Outline.addAll_append (outline : Outline) (tokens more : List Token) :
    outline.addAll (tokens ++ more) = (outline.addAll tokens).bind (addAll · more) := by
  simp [addAll]

@[simp] theorem Outline.addAll_nil (outline : Outline) : outline.addAll [] = some outline := rfl

theorem Outline.addAll_cons (outline : Outline) (token : Token) (rest : List Token) :
    outline.addAll (token :: rest) = (outline.add token).bind (addAll · rest) := by
  simp [addAll]

/-- A scan is a run of the reader whose tokens are added to the outline. -/
theorem Scan.read_eq_run (mode : Mode) (outline : Outline) (text : List Char) :
    Scan.read (mode, outline) text =
      (mode.run text).bind fun result => (outline.addAll result.1).map (result.2, ·) := by
  induction text generalizing mode outline with
  | nil => rfl
  | cons c rest ih =>
    simp only [read_cons, step, Mode.run]
    cases hstep : mode.step c with
    | none => rfl
    | some result =>
      obtain ⟨tokens, next⟩ := result
      cases hadd : outline.addAll tokens with
      | none => cases hrun : next.run rest <;> simp [hadd, hrun, Outline.addAll_append]
      | some outline' =>
        have htail := ih next outline'
        cases hrun : next.run rest <;>
          simp_all [Outline.addAll_append]

theorem Outline.put_of_opened {outline : Outline} (h : outline.opened ≠ []) (token : Token) :
    outline.put token = outline :=
  if_neg h

@[simp] theorem Outline.put_opened (outline : Outline) (token : Token) :
    (outline.put token).opened = outline.opened := by
  unfold put
  split <;> rfl

/-- Which brackets a token leaves open depends on nothing but the brackets before it. -/
theorem Outline.add_of_opened {outline other next : Outline} (h : other.opened = outline.opened)
    {token : Token} (hadd : outline.add token = some next) :
    ∃ result, other.add token = some result ∧ result.opened = next.opened := by
  cases token with
  | opening bracket =>
    obtain rfl := Option.some.inj hadd
    exact ⟨_, rfl, by simp [h]⟩
  | closing bracket =>
    simp only [add, h] at hadd ⊢
    cases hopened : outline.opened with
    | nil => simp [hopened] at hadd
    | cons innermost rest =>
      simp only [hopened] at hadd ⊢
      split at hadd
      · rename_i hmatch
        obtain rfl := Option.some.inj hadd
        exact ⟨_, if_pos hmatch, rfl⟩
      · simp at hadd
  | word text =>
    obtain rfl := Option.some.inj hadd
    exact ⟨_, rfl, by simp [h]⟩
  | symbol text =>
    obtain rfl := Option.some.inj hadd
    exact ⟨_, rfl, by simp [h]⟩
  | literal =>
    obtain rfl := Option.some.inj hadd
    exact ⟨_, rfl, by simp [h]⟩

theorem Outline.addAll_of_opened {outline other next : Outline} (h : other.opened = outline.opened)
    {tokens : List Token} (hadd : outline.addAll tokens = some next) :
    ∃ result, other.addAll tokens = some result ∧ result.opened = next.opened := by
  induction tokens generalizing outline other with
  | nil =>
    obtain rfl := Option.some.inj hadd
    exact ⟨other, rfl, h⟩
  | cons token rest ih =>
    rw [addAll_cons] at hadd
    obtain ⟨middle, hfirst, hrest⟩ := Option.bind_eq_some_iff.mp hadd
    obtain ⟨result, hother, hopened⟩ := add_of_opened h hfirst
    obtain ⟨final, hfinal, hsame⟩ := ih hopened hrest
    exact ⟨final, by simp [addAll_cons, hother, hfinal], hsame⟩

theorem Scan.read_eq_some {mode mode' : Mode} {outline next : Outline} {text : List Char} :
    Scan.read (mode, outline) text = some (mode', next) ↔
      ∃ tokens, mode.run text = some (tokens, mode') ∧ outline.addAll tokens = some next := by
  rw [read_eq_run]
  constructor
  · intro h
    obtain ⟨⟨tokens, mode₁⟩, hrun, hmap⟩ := Option.bind_eq_some_iff.mp h
    obtain ⟨outline', hall, heq⟩ := Option.map_eq_some_iff.mp hmap
    obtain ⟨rfl, rfl⟩ := Prod.mk.inj heq
    exact ⟨tokens, hrun, hall⟩
  · rintro ⟨tokens, hrun, hall⟩
    simp [hrun, hall]

/-- The outline of a text that a scan has read to its end. -/
theorem outline?_of_read {text : List Char} {mode : Mode} {outline result : Outline}
    {last : List Token} (hread : Scan.read (.code, {}) text = some (mode, outline))
    (hlast : mode.finish = some last) (hadd : outline.addAll last = some result) :
    outline? text = some result := by
  obtain ⟨tokens, hrun, hall⟩ := Scan.read_eq_some.mp hread
  simp [outline?, Zig.tokens, hrun, hlast, Outline.addAll_append, hall, hadd]

theorem Scan.read_of_opened {mode mode' : Mode} {outline other next : Outline}
    {text : List Char} (h : other.opened = outline.opened)
    (hread : Scan.read (mode, outline) text = some (mode', next)) :
    ∃ result, Scan.read (mode, other) text = some (mode', result) ∧
      result.opened = next.opened := by
  obtain ⟨tokens, hrun, hall⟩ := read_eq_some.mp hread
  obtain ⟨result, hother, hopened⟩ := Outline.addAll_of_opened h hall
  exact ⟨result, read_eq_some.mpr ⟨tokens, hrun, hother⟩, hopened⟩

/-! ### Settled scans -/

/-- Between two tokens, or in a word, which any character of another kind ends. -/
def Mode.IsSettled : Mode → Prop
  | code => True
  | word _ => True
  | _ => False

/-- The outline once the word that is being read has ended. -/
def Scan.settle : Scan → Outline
  | (.word text, outline) => outline.put (.word text)
  | (_, outline) => outline

@[simp] theorem Scan.settle_opened (scan : Scan) : scan.settle.opened = scan.2.opened := by
  obtain ⟨mode, outline⟩ := scan
  cases mode <;> simp [settle]

/-- Characters that complete no operator, so that they can follow one. -/
def leads (c : Char) : Bool :=
  !(c == '=' || c == '+' || c == '/')

/-! ### Closed and fitting text -/

/-- Text between two tokens that closes all it opens. -/
structure Closed (text : List Char) : Prop where
  inside : ∀ outline : Outline, outline.opened ≠ [] →
    Scan.read (.code, outline) text = some (.code, outline)
  outside : ∀ outline : Outline, outline.opened = [] →
    ∃ next, Scan.read (.code, outline) text = some (.code, next) ∧ next.opened = []

/-- An operand that closes all it opens and exposes only operators of ranks that are fine. -/
structure Fits (fine : Rank → Prop) (text : List Char) : Prop where
  leads : ∃ c, text.head? = some c ∧ leads c = true
  inside : ∀ outline : Outline, outline.opened ≠ [] →
    ∃ mode, mode.IsSettled ∧ Scan.read (.code, outline) text = some (mode, outline)
  outside : ∀ outline : Outline, outline.opened = [] →
    outline.last.any Token.endsOperand = false →
      ∃ scan : Scan, scan.1.IsSettled ∧ Scan.read (.code, outline) text = some scan ∧
        scan.settle.opened = [] ∧ ∀ rank ∈ scan.settle.exposed, rank ∈ outline.exposed ∨ fine rank

theorem Closed.nil : Closed [] where
  inside _ _ := rfl
  outside outline h := ⟨outline, rfl, h⟩

theorem Closed.append {text more : List Char} (ht : Closed text) (hm : Closed more) :
    Closed (text ++ more) where
  inside outline h := by
    rw [Scan.read_of_read (ht.inside outline h)]
    exact hm.inside outline h
  outside outline h := by
    obtain ⟨middle, hread, hopened⟩ := ht.outside outline h
    obtain ⟨next, hmore, hnext⟩ := hm.outside middle hopened
    exact ⟨next, by rw [Scan.read_of_read hread, hmore], hnext⟩

theorem Fits.mono {fine fine' : Rank → Prop} {text : List Char} (h : Fits fine text)
    (himp : ∀ rank, fine rank → fine' rank) : Fits fine' text where
  leads := h.leads
  inside := h.inside
  outside outline hopened hlast := by
    obtain ⟨scan, hset, hread, hnil, hexposed⟩ := h.outside outline hopened hlast
    exact ⟨scan, hset, hread, hnil, fun rank hrank => (hexposed rank hrank).imp_right (himp rank)⟩

/-- The outline of an operand on its own. -/
theorem Fits.outline?_eq {fine : Rank → Prop} {text : List Char} (h : Fits fine text) :
    ∃ outline, outline? text = some outline ∧ outline.opened = [] ∧
      ∀ rank ∈ outline.exposed, fine rank := by
  obtain ⟨⟨mode, outline⟩, hset, hread, hnil, hexposed⟩ := h.outside {} rfl rfl
  refine ⟨_, ?_, hnil, fun rank hrank => (hexposed rank hrank).resolve_left (by simp)⟩
  cases mode with
  | code => exact outline?_of_read hread rfl rfl
  | word text => exact outline?_of_read hread rfl rfl
  | operator first => exact hset.elim
  | literal quote => exact hset.elim
  | escape quote => exact hset.elim
  | comment => exact hset.elim

theorem Closed.outline?_eq {text : List Char} (h : Closed text) :
    ∃ outline, outline? text = some outline ∧ outline.opened = [] := by
  obtain ⟨outline, hread, hnil⟩ := h.outside {} rfl
  exact ⟨outline, outline?_of_read hread rfl rfl, hnil⟩

end BlockSynth.Zig
