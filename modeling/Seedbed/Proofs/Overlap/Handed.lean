import Seedbed.Proofs.Overlap.Runs

/-! The records of a file are settled before the first of them is inserted. What is handed over at
a place is the same for all functions that insert them and for all that happens in between; it is
what the text, the environment and the registry gave when the call began. -/

namespace Seedbed

variable {σ : Type}

/-- Two lists hold the same at every place that both reach. -/
def Agree {α : Type} (xs ys : List α) : Prop :=
  ∀ (i : Nat) (x y : α), xs[i]? = some x → ys[i]? = some y → x = y

theorem agree_of_prefix {α : Type} {xs ys zs : List α} (hx : xs <+: zs) (hy : ys <+: zs) :
    Agree xs ys := by
  intro i x y hxi hyi
  obtain ⟨hi, rfl⟩ := List.getElem?_eq_some_iff.1 hxi
  obtain ⟨hj, rfl⟩ := List.getElem?_eq_some_iff.1 hyi
  have h := (List.prefix_iff_getElem?.1 hx i hi).symm.trans (List.prefix_iff_getElem?.1 hy i hj)
  exact Option.some.inj h

/-! ### The records to come -/

/-- The records of a file under their labels, once its text is read with the given answer. There
are none where a stage of the load fails. -/
def forthcoming (environment : Environment σ) (decoder : Decoder σ) (names : Registry) :
    Except Thrown String × σ → List (String × Value)
  | (.error _, _) => []
  | (.ok raw, w) =>
    match (substitute ⟨names, environment⟩ raw >>= decoder) w with
    | (.error _, _) => []
    | (.ok records, _) => records.entries

/-- Registries that answer alike have the same records to come. -/
theorem forthcoming_congr (environment : Environment σ) (decoder : Decoder σ) {a b : Registry}
    (h : ∀ label, a.lookup label = b.lookup label) (read : Except Thrown String × σ) :
    forthcoming environment decoder a read = forthcoming environment decoder b read := by
  obtain ⟨answer, w⟩ := read
  cases answer with
  | error e => rfl
  | ok raw =>
    obtain ⟨t, ht, hall⟩ := Split.exists_allFree raw.toList
    have hsub : substitute ⟨a, environment⟩ raw = substitute ⟨b, environment⟩ raw :=
      substitute_congr ht ((Split.clear_iff t).2 hall) fun tag _ =>
        tag.resolve_congr environment fun _ => h tag.key
    rw [forthcoming, forthcoming, hsub]

theorem LoadYields.entries_eq {source : Source σ} {filename : String} {decoder : Decoder σ}
    {dir : Option String} {names : Registry} {w w' : σ} {records : Records}
    (h : LoadYields source filename decoder dir names w records w') :
    records.entries =
      forthcoming source.environment decoder names (source.reader filename dir w) := by
  cases h with
  | decoded read tags decode =>
    rw [read, forthcoming, Action.bind_ok tags, decode]

/-! ### What a call hands over -/

namespace Request

variable {source : Source σ} {filename : String} {decoder : Decoder σ} {s : Seeder} {w : σ}
  {q : Request σ}

/-- The calls of the caller's functions that a call makes. -/
def calls (source : Source σ) (q : Request σ) (s : Seeder) (w : σ) : List Call :=
  (q.noting.perform source.noting (s, ([], w))).2.2.1

def handed (source : Source σ) (q : Request σ) (s : Seeder) (w : σ) : List Value :=
  (q.calls source s w).filterMap Call.record?

def decoded (source : Source σ) (q : Request σ) (s : Seeder) (w : σ) : List String :=
  (q.calls source s w).filterMap Call.text?

/-- A call hands over the first of the records to come, up to all of them. -/
theorem handed_forthcoming (hq : q.file? = some (filename, decoder)) (source : Source σ)
    (s : Seeder) (w : σ) :
    q.handed source s w <+: (forthcoming source.environment decoder s.names
      (source.reader filename (some s.baseDir) w)).map Prod.snd := by
  obtain ⟨insert, -, hn⟩ := exists_inserter hq source
  obtain ⟨r, s', new, w', ⟨-, hwatched⟩, h⟩ :=
    Seeder.exists_ending source filename decoder insert s [] w
  rw [handed, calls, hn, hwatched, List.nil_append]
  cases h with
  | unloaded fails load asked =>
    rw [asked.record?]
    exact List.nil_prefix
  | finished yields asked each =>
    rw [← yields.entries_eq, List.filterMap_append, asked.record?,
      Seeder.insertCalls_record? each.length]
    exact List.prefix_rfl
  | stopped yields asked fails =>
    obtain ⟨⟨rest, hsplit⟩, w₂, hdone, -⟩ := fails.split
    rw [← yields.entries_eq, hsplit, List.filterMap_append, List.filterMap_append, asked.record?,
      Seeder.insertCalls_record? hdone.length, List.map_append]
    exact ⟨rest.map Prod.snd, List.append_assoc _ [_] _⟩

/-- The decoder is handed the text with its tags replaced, once. -/
theorem decoded_of_resolved (hq : q.file? = some (filename, decoder)) {raw text : String}
    {w₁ w₂ : σ} (read : source.reader filename (some s.baseDir) w = (.ok raw, w₁))
    (tags : substitute ⟨s.names, source.environment⟩ raw w₁ = (.ok text, w₂)) :
    q.decoded source s w = [text] := by
  obtain ⟨insert, -, hn⟩ := exists_inserter hq source
  obtain ⟨r, s', w', new, inserts, added, hnew, hinserts, ⟨-, hwatched⟩, -⟩ :=
    Seeder.populate_ends source filename decoder insert s [] w
  rw [decoded, calls, hn, hwatched, List.nil_append, List.filterMap_append,
    hnew.text?_of_resolved read tags, hinserts, List.append_nil]

/-- A call whose load fails ends with that error, and hands over nothing. -/
theorem handed_of_unloaded (hq : q.file? = some (filename, decoder)) {e : Thrown} {w₁ : σ}
    (load : loadRecords source filename decoder (some s.baseDir) s.names w = (.error e, w₁)) :
    (q.perform source (s, w)).1 = .error e ∧ q.handed source s w = [] := by
  obtain ⟨insert, hp, hn⟩ := exists_inserter hq source
  obtain ⟨new, hnew, hrun, hwatched⟩ := Seeder.ends_unloaded insert [] load
  refine ⟨by rw [hp, hrun], ?_⟩
  rw [handed, calls, hn, hwatched]
  exact hnew.record?

end Request

/-! ### What a run hands over -/

namespace Overlap

variable {source : Source σ} {filename : String} {decoder : Decoder σ} {st₀ st : State σ} {i : Nat}

def State.handed (st : State σ) (i : Nat) : List Value :=
  ((st.trace i).filterMap Mark.called?).map Prod.snd

/-- A run hands over the first of the records that were to come when it began. -/
theorem Follows.handed_forthcoming (h : Follows source st₀ filename decoder st i) :
    st.handed i <+: (forthcoming source.environment decoder st₀.seeder.names
      (source.reader filename (some st₀.seeder.baseDir) st₀.world)).map Prod.snd := by
  apply List.IsPrefix.map
  rcases Action.run_cases (loadRecords source filename decoder (some st₀.seeder.baseDir)
    st₀.seeder.names) st₀.world with ⟨records, w, load⟩ | ⟨e, w, load⟩
  · rw [← (LoadYields.of_run load).entries_eq]
    exact h.called_prefix records w load
  · obtain ⟨stage, -, hc⟩ := h
    generalize st.trace i = marks at hc
    cases hc with
    | unloaded _ => exact List.nil_prefix
    | loaded load' _ => cases load.symm.trans load'

theorem Follows.of_unloaded (h : Follows source st₀ filename decoder st i) {e : Thrown} {w : σ}
    (load : loadRecords source filename decoder (some st₀.seeder.baseDir) st₀.seeder.names
      st₀.world = (.error e, w)) :
    st.runs[i]? = some (.ended (.error e)) ∧ st.handed i = [] := by
  obtain ⟨stage, hstage, hc⟩ := h
  rw [State.handed, hstage]
  generalize st.trace i = marks at hc
  cases hc with
  | unloaded load' =>
    cases load.symm.trans load'
    exact ⟨rfl, rfl⟩
  | loaded load' _ => cases load.symm.trans load'

end Overlap

/-! ### References without an identifier -/

/-- A file that refers to a label without an identifier can not be loaded. -/
theorem exists_error_of_missing {source : Source σ} {filename : String} {s : Seeder} {w w₁ : σ}
    {raw : String} (read : source.reader filename (some s.baseDir) w = (.ok raw, w₁)) {t : Split}
    (ht : t.text = raw.toList) (hc : t.Clear) {tag : Tag} (hmem : tag ∈ t.tags)
    (href : tag.directive = "REF") (hnone : s.lookup tag.key = none) (decoder : Decoder σ) :
    ∃ e w₂, loadRecords source filename decoder (some s.baseDir) s.names w = (.error e, w₂) := by
  rcases Action.each_or_fails (Tag.resolve ⟨s.names, source.environment⟩) t.tags w₁ with
    ⟨texts, w₂, he⟩ | ⟨done, a, texts, e, w₂, hf⟩
  · obtain ⟨text, w₃, w₄, hok⟩ := he.exists_of_mem hmem
    rw [Tag.resolve_missing ⟨s.names, source.environment⟩ href hnone] at hok
    cases hok
  · exact ⟨_, _, loadRecords_of_unresolved read (substitute_error ht hc hf)⟩

/-! ### Two calls -/

/-- Nothing tells two beginnings of a load apart: the text that was read, the caller's state after
that, the environment, and the identifiers under all labels. -/
structure BeginAlike (source source' : Source σ) (filename filename' : String) (s s' : Seeder)
    (w w' : σ) : Prop where
  read : source.reader filename (some s.baseDir) w =
    source'.reader filename' (some s'.baseDir) w'
  environment : source.environment = source'.environment
  lookup : ∀ label, s.lookup label = s'.lookup label

theorem BeginAlike.forthcoming_eq {source source' : Source σ} {filename filename' : String}
    {s s' : Seeder} {w w' : σ} (h : BeginAlike source source' filename filename' s s' w w')
    (decoder : Decoder σ) :
    forthcoming source.environment decoder s.names (source.reader filename (some s.baseDir) w) =
      forthcoming source'.environment decoder s'.names
        (source'.reader filename' (some s'.baseDir) w') := by
  rw [h.environment, h.read]
  apply forthcoming_congr
  exact h.lookup

/-- What is handed over of a file is known from the moment when the call begins. -/
structure HandsOver (source : Source σ) (filename : String) (decoder : Decoder σ) (s : Seeder)
    (w : σ) : Prop where
  /-- Any two functions are handed the same records, whether they answer at once or with
  promises. -/
  calls : ∀ q q' : Request σ, q.file? = some (filename, decoder) →
    q'.file? = some (filename, decoder) → Agree (q.handed source s w) (q'.handed source s w)
  /-- So are functions of two calls that begin alike. -/
  inputs : ∀ source' filename' s' w', BeginAlike source source' filename filename' s s' w w' →
    ∀ q q' : Request σ, q.file? = some (filename, decoder) →
      q'.file? = some (filename', decoder) → Agree (q.handed source s w) (q'.handed source' s' w')
  /-- And those of two runs, whatever happens between their inserts. -/
  runs : ∀ source' filename' (st st' : Overlap.State σ), st.Sound → st'.Sound → st.seeder = s →
    st.world = w → BeginAlike source source' filename filename' s st'.seeder w st'.world →
    ∀ step step' : Overlap.Step σ, step.file? = some (filename, decoder) →
      step'.file? = some (filename', decoder) → ∀ after after' : List (Overlap.Step σ),
      Agree ((Overlap.performAll source (step :: after) st).handed st.runs.length)
        ((Overlap.performAll source' (step' :: after') st').handed st'.runs.length)
  /-- The decoder sees each reference as the identifier that its label had. -/
  references : ∀ raw w₁, source.reader filename (some s.baseDir) w = (.ok raw, w₁) →
    ∀ t : Split, t.text = raw.toList → t.Clear → ∀ texts w₂,
      Action.Each (Tag.resolve ⟨s.names, source.environment⟩) t.tags w₁ texts w₂ →
      (∀ q : Request σ, q.file? = some (filename, decoder) →
        q.decoded source s w = [.ofList (t.fill texts)]) ∧
      ∀ p ∈ t.tags.zip texts, p.1.directive = "REF" → s.lookup p.1.key = some p.2
  /-- A reference to a label that had none ends the call and the run before any insert. -/
  missing : ∀ raw w₁, source.reader filename (some s.baseDir) w = (.ok raw, w₁) →
    ∀ t : Split, t.text = raw.toList → t.Clear → ∀ tag ∈ t.tags, tag.directive = "REF" →
      s.lookup tag.key = none → ∃ e,
      (∀ q : Request σ, q.file? = some (filename, decoder) →
        (q.perform source (s, w)).1 = .error e ∧ q.handed source s w = []) ∧
      ∀ st : Overlap.State σ, st.Sound → st.seeder = s → st.world = w →
        ∀ step : Overlap.Step σ, step.file? = some (filename, decoder) →
        ∀ after : List (Overlap.Step σ),
          (Overlap.performAll source (step :: after) st).runs[st.runs.length]? =
              some (.ended (.error e)) ∧
            (Overlap.performAll source (step :: after) st).handed st.runs.length = []
  /-- Where the tags before it all stand for something, this reference is what the error names. -/
  unresolved : ∀ raw w₁, source.reader filename (some s.baseDir) w = (.ok raw, w₁) →
    ∀ t : Split, t.text = raw.toList → t.Clear → ∀ done tag rest texts w₂,
      t.tags = done ++ tag :: rest →
      Action.Each (Tag.resolve ⟨s.names, source.environment⟩) done w₁ texts w₂ →
      tag.directive = "REF" → s.lookup tag.key = none →
      ∀ q : Request σ, q.file? = some (filename, decoder) →
        ∃ f, (q.perform source (s, w)).1 = .error (.fault f) ∧ f.code = .unresolvedReference ∧
          f.context =
            { filename := some filename, key := some tag.key, directive := some "REF" }

/-- Whatever the seeder, the file and the decoder, the record that is handed over at a place does
not depend on what the inserts before it answered. -/
theorem handed_foreseen (source : Source σ) (filename : String) (decoder : Decoder σ) (s : Seeder)
    (w : σ) : HandsOver source filename decoder s w where
  calls := by
    intro q q' hq hq'
    apply agree_of_prefix
    · exact Request.handed_forthcoming hq source s w
    · exact Request.handed_forthcoming hq' source s w
  inputs := by
    intro source' filename' s' w' h q q' hq hq'
    apply agree_of_prefix (Request.handed_forthcoming hq source s w)
    rw [h.forthcoming_eq]
    exact Request.handed_forthcoming hq' source' s' w'
  runs := by
    intro source' filename' st st' hst hst' hs hw h step step' hf hf' after after'
    subst hs hw
    have hfollows := Overlap.follows_performAll source hst hf after
    have hfollows' := Overlap.follows_performAll source' hst' hf' after'
    apply agree_of_prefix hfollows.handed_forthcoming
    rw [h.forthcoming_eq]
    exact hfollows'.handed_forthcoming
  references := by
    intro raw w₁ read t ht hc texts w₂ hr
    refine ⟨fun q hq => Request.decoded_of_resolved hq read (substitute_ok ht hc hr), ?_⟩
    intro p hmem href
    obtain ⟨w₃, w₄, hp⟩ := hr.exists_of_mem_zip hmem
    exact Tag.lookup_of_resolve _ href hp
  missing := by
    intro raw w₁ read t ht hc tag hmem href hnone
    obtain ⟨e, w₂, load⟩ := exists_error_of_missing read ht hc hmem href hnone decoder
    refine ⟨e, fun q hq => Request.handed_of_unloaded hq load, ?_⟩
    intro st hst hs hw step hf after
    subst hs hw
    exact (Overlap.follows_performAll source hst hf after).of_unloaded load
  unresolved := by
    intro raw w₁ read t ht hc done tag rest texts w₂ htags hr href hnone q hq
    have hthrows := Tag.resolve_missing ⟨s.names, source.environment⟩ href hnone w₂
    have load : loadRecords source filename decoder (some s.baseDir) s.names w = _ :=
      loadRecords_of_unresolved read (substitute_stopped ht hc htags hr hthrows)
    obtain ⟨herror, -⟩ := Request.handed_of_unloaded hq load
    exact ⟨_, herror, rfl, rfl⟩

/-- The label `a` of the same file had an identifier, and gets another one before its reference is
handed over. -/
example : (Request.populate "f"
      (fun text => pure (.ofList [("a", .null), ("b", .text text)]))
      (fun _ _ => pure (.text "2"))).handed
    { reader := fun _ _ => pure "$\x7b\x7b REF(a) \x7d\x7d", environment := .ofVariables [] }
    { names := .ofEntries [("a", "1")] } () = [.null, .text "1"] := by
  cbv

end Seedbed
