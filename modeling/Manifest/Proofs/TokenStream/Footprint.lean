import Manifest.Proofs.Scan.Leads
import Manifest.Proofs.TokenStream.Given

/-!
# Bodies are read once

The tokens of a manifest take up nothing twice: what a here-doc takes up, its body and its end line,
no other token of the manifest takes up. It is so where nothing but code reaches the line feeds that
bodies wait for. Where a string, a comment or the header of another here-doc takes such a line feed,
the scan goes on inside the body, and reads it again.

* `Heeded` — tokens and comments leave the line feeds alone that bodies wait for.
* `scanAll_apart` — then no byte of a body is scanned again.
* `tokenize_rereads` — a comment that does not leads into a body.
-/

namespace Manifest.TokenStream

open Scan (Apart LeavesComment Leads State footprint footprints lineFeed restOfLine)
open Text (Document byteLength)

variable {d : Document} {waited : Nat → Prop} {text : List Char} {file : String}
  {s s₀ : TokenStream}
  {given ts : List Token} {t : Token}

/-- The line feeds that end the lines of headers are reached in code. -/
structure Heeded (d : Document) (ts : List Token) : Prop where
  /-- No token but a body takes such a line feed. -/
  tokens : ∀ header ∈ ts, header.source = .document d → header.kind = .hereDoc →
    ∀ t ∈ ts, t.source = .document d → t.kind ≠ .hereDocBody →
      t.range.stop ≤ lineFeed d.text header.range.stop ∨
        lineFeed d.text header.range.stop < t.range.start
  /-- No comment that begins behind a header takes it. -/
  comments : ∀ header ∈ ts, header.source = .document d → header.kind = .hereDoc →
    ¬ LeavesComment (restOfLine d.text header.range.stop)

instance : Decidable (Heeded d ts) :=
  decidable_of_iff (_ ∧ _) ⟨fun h => ⟨h.1, h.2⟩, fun h => ⟨h.1, h.2⟩⟩

/-- The line feed that ends the line of a header. -/
def Waited (d : Document) (ts : List Token) (n : Nat) : Prop :=
  ∃ header ∈ ts, header.source = .document d ∧ header.kind = .hereDoc ∧
    n = lineFeed d.text header.range.stop

/-- Tokens of which each heeds those before it. -/
theorem Heeded.heeds (h : Heeded d ts) (ht : t ∈ ts) : Scan.Heeds d (Waited d ts) t := by
  constructor
  · rintro hsource hkind n ⟨header, hmem, hown, hheader, rfl⟩
    exact h.tokens header hmem hown hheader t ht hsource hkind
  · intro hsource hkind
    exact ⟨⟨t, ht, hsource, hkind, rfl⟩, h.comments t ht hsource hkind⟩

/-- The tokens that were given, and those that wait, lead to the cursor. -/
structure Follows (d : Document) (waited : Nat → Prop) (start : State) (given : List Token)
    (s : TokenStream) : Prop where
  entry : s.entry = .code
  inCode : s.state.InCode (.document d)
  leads : Leads d waited start (given ++ s.queue) s.state

/-- What has been given follows the footprints so far. -/
theorem Given.follows (h : Given s₀ given s) (hentry : s₀.entry = .code)
    (hstart : s₀.state.InCode (.document d)) (hqueue : s₀.queue = []) :
    Follows d waited s₀.state given s := by
  induction h with
  | start =>
      rw [← List.append_nil []]
      exact ⟨hentry, hstart, by rw [hqueue]; exact Scan.leads_nil rfl rfl⟩
  | entry _ _ hbatch ih =>
      rw [ih.entry] at hbatch
      obtain ⟨rfl, rfl⟩ := EStateM.Result.ok.inj hbatch
      rw [List.append_nil]
      exact ⟨ih.entry, ih.inCode, ih.leads⟩
  | step _ hqueue _ hruns ih =>
      have hleads := ih.leads
      rw [hqueue, List.append_nil] at hleads
      refine ⟨ih.entry, (hruns.inCode ih.inCode trivial (List.forall_mem_nil _)).1, ?_⟩
      exact hleads.trans (hruns.leads ih.inCode trivial)
  | token _ hqueue ih =>
      have hleads := ih.leads
      rw [hqueue, List.append_cons] at hleads
      exact ⟨ih.entry, ih.inCode.congr rfl rfl rfl rfl rfl, hleads⟩

/-- What tokens take up of a manifest is apart, the token at its end included. -/
theorem scanAll_pairwise {options : Scan.Options}
    (h : scanAll options (.manifest text file) = .ok ts) (hheeded : Heeded (.ofText text file) ts) :
    (footprints (.ofText text file) ts).Pairwise Apart := by
  obtain ⟨body, s, rfl, hgiven, hqueue, hend⟩ := scanAll_given h
  have hstart : State.InCode (ofManifest options text file).state (.document (.ofText text file)) :=
    ⟨State.sound_start _ rfl rfl, rfl, rfl, rfl⟩
  obtain ⟨-, hin, hleads⟩ := hgiven.follows rfl hstart rfl
  rw [hqueue, List.append_nil] at hleads
  rw [hin.source_eq, hin.text] at hheeded ⊢
  have hbody := hleads (fun t ht => hheeded.heeds (List.mem_append_left _ ht)) []
    (.free List.Pairwise.nil (List.forall_mem_nil _))
  have hle : byteLength text ≤ s.state.pos := by
    have hsize := of_decide_eq_true hend
    rwa [State.size, hin.text] at hsize
  -- the token at the end begins where the cursor stands
  rw [Scan.footprints_append, Scan.footprints_cons rfl,
    Scan.footprints_eq_nil (List.forall_mem_nil _)]
  refine Scan.pairwise_concat hbody.pairwise fun u hu => .inl ?_
  exact Nat.le_trans (hbody.of_atEnd hle u hu) hin.boundary.le

/-- No byte of a body is scanned again, where nothing but code reaches the line feeds that bodies
wait for: of the tokens of a manifest that refer to it, none takes up what another one does. -/
theorem scanAll_apart {options : Scan.Options} (h : scanAll options (.manifest text file) = .ok ts)
    (hheeded : Heeded (.ofText text file) ts) :
    (ts.filter (·.source = .document (.ofText text file))).Pairwise
      fun t u => Apart (footprint text t) (footprint text u) :=
  List.pairwise_map.1 (scanAll_pairwise h hheeded)

/-- A header with a comment and a string behind it, its body, and a name. -/
def heededText : List Char :=
  ['@', '(', 'A', ')', '/', '*', '*', '/', '\'', '\'', '\n', 'b', '\n', 'A', '\n', 'c']

/-- Neither the string behind the header nor the name behind the body is part of the here-doc. -/
theorem scanAll_apart_heeded : ∃ ts, scanAll .standard (.manifest heededText "") = .ok ts ∧
    ts.map (·.kind) = [.hereDoc, .hereDocBody, .string, .string, .name, .endOfText] ∧
    (ts.filter (·.source = .document (.ofText heededText ""))).Pairwise
      fun t u => Apart (footprint heededText t) (footprint heededText u) := by
  have hscan : (scanAll .standard (.manifest heededText "")).toOption.map
      (fun ts => (ts.map (·.kind), decide (Heeded (.ofText heededText "") ts)))
        = some ([.hereDoc, .hereDocBody, .string, .string, .name, .endOfText], true) := by
    decide +kernel
  cases h : scanAll .standard (.manifest heededText "") with
  | error stop =>
      rw [h] at hscan
      exact nomatch hscan
  | ok ts =>
      rw [h] at hscan
      obtain ⟨hkinds, hheeded⟩ := Prod.mk.inj (Option.some.inj hscan)
      exact ⟨ts, rfl, hkinds, scanAll_apart h (of_decide_eq_true hheeded)⟩

/-- A comment that takes the line feed behind a header. -/
def rereadText : List Char :=
  ['@', '(', 'A', ')', ' ', '/', '*', '\n', '*', '/', ' ', 'b', '\n', 'A', '\n', '*', '/']

/-- A comment that takes the line feed behind a header leads into the body, and what is left of the
body is scanned as code. -/
theorem tokenize_rereads : ¬ ∀ (text : List Char) (file : String) (ts : List Token),
    tokenize text file = .ok ts → ∀ body ∈ ts, ∀ t ∈ ts,
      body.source = .document (.ofText text file) → t.source = .document (.ofText text file) →
      body.kind = .hereDocBody → t ≠ body → ∀ o, ¬ ((footprint text body).start ≤ o ∧
        o < (footprint text body).stop ∧ t.range.start ≤ o ∧ o < t.range.stop) := by
  intro hclaim
  have hscan : (tokenize rereadText "").toOption.any (fun ts => decide (∃ body ∈ ts, ∃ t ∈ ts,
      body.source = .document (.ofText rereadText "") ∧
        t.source = .document (.ofText rereadText "") ∧ body.kind = .hereDocBody ∧ t ≠ body ∧
        (footprint rereadText body).start ≤ 11 ∧ 11 < (footprint rereadText body).stop ∧
        t.range.start ≤ 11 ∧ 11 < t.range.stop)) = true := by
    decide +kernel
  cases h : tokenize rereadText "" with
  | error stop =>
      rw [h] at hscan
      exact nomatch hscan
  | ok ts =>
      rw [h] at hscan
      obtain ⟨body, hbody, t, ht, hown, hown', hkind, hne, hshared⟩ := of_decide_eq_true hscan
      exact hclaim rereadText "" ts h body hbody t ht hown hown' hkind hne 11 hshared

end Manifest.TokenStream
