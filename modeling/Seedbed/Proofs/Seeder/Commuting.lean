import Seedbed.Proofs.Alike
import Seedbed.Proofs.Overlap.Handed

/-! Files that have nothing to do with each other. Where neither of two files refers to a label of
the other one and no label stands in both, they may be populated in either order: each call does
what it would do without the other, also where one of them fails. The caller's functions have to
answer by their arguments alone for that. -/

namespace Seedbed

variable {σ : Type}

/-! ### Inserts -/

/-- What an insert answers with depends on the record alone. -/
def Inserter.ByRecord (insert : Inserter σ) : Prop :=
  ∀ names names' record w w', (insert names record w).1 = (insert names' record w').1

theorem Inserter.ByRecord.run {insert : Inserter σ} (h : insert.ByRecord) {names : Registry}
    {record : Value} {w w₁ : σ} {r : Except Thrown Identifier}
    (hr : insert names record w = (r, w₁)) (names' : Registry) (w' : σ) :
    ∃ w₁', insert names' record w' = (r, w₁') := by
  have hw := h names' names record w' w
  rw [hr] at hw
  exact ⟨(insert names' record w').2, Prod.ext hw rfl⟩

namespace Seeder

variable {insert : Inserter σ} {entries done : List (String × Value)} {entry : String × Value}
  {ids : List Identifier} {id : Identifier} {e : Thrown} {names : Registry} {w : σ}
  {st : Registry × σ}

theorem registering_byRecord_ok (h : insert.ByRecord)
    (hr : registering insert entry (names, w) = (.ok id, st)) (names' : Registry) (w' : σ) :
    ∃ st', registering insert entry (names', w') = (.ok id, st') := by
  obtain ⟨w₁, hi, -⟩ := exists_of_registering_ok hr
  obtain ⟨w₁', hi'⟩ := h.run hi names' w'
  exact ⟨_, registering_ok hi'⟩

theorem registering_byRecord_error (h : insert.ByRecord)
    (hr : registering insert entry (names, w) = (.error e, st)) (names' : Registry) (w' : σ) :
    ∃ st', registering insert entry (names', w') = (.error e, st') := by
  obtain ⟨w₁, hi, -⟩ := exists_of_registering_error hr
  obtain ⟨w₁', hi'⟩ := h.run hi names' w'
  exact ⟨_, registering_error hi'⟩

theorem each_byRecord (h : insert.ByRecord) {st₀ : Registry × σ}
    (he : Action.Each (registering insert) entries st₀ ids st) (st₀' : Registry × σ) :
    ∃ st', Action.Each (registering insert) entries st₀' ids st' := by
  induction he generalizing st₀' with
  | nil => exact ⟨st₀', .nil⟩
  | cons head tail ih =>
    obtain ⟨st₁', head'⟩ := registering_byRecord_ok h head st₀'.1 st₀'.2
    obtain ⟨st', tail'⟩ := ih st₁'
    exact ⟨st', .cons head' tail'⟩

theorem failsAt_byRecord (h : insert.ByRecord) {st₀ : Registry × σ}
    (hf : Action.FailsAt (registering insert) entries st₀ done entry ids e st)
    (st₀' : Registry × σ) :
    ∃ st', Action.FailsAt (registering insert) entries st₀' done entry ids e st' := by
  induction hf generalizing st₀' with
  | here head =>
    obtain ⟨st', head'⟩ := registering_byRecord_error h head st₀'.1 st₀'.2
    exact ⟨st', .here head'⟩
  | later head tail ih =>
    obtain ⟨st₁', head'⟩ := registering_byRecord_ok h head st₀'.1 st₀'.2
    obtain ⟨st', tail'⟩ := ih st₁'
    exact ⟨st', .later head' tail'⟩

end Seeder

/-! ### One call -/

namespace Request

/-- The call populates a file by functions that answer by their arguments alone, the insert function
by the record. -/
inductive Steady : Request σ → Prop
  | populate {filename : String} {decoder : Decoder σ} {insert : Inserter σ}
      (decodes : decoder.Steady) (inserts : insert.ByRecord) :
      Steady (.populate filename decoder insert)
  | populateAsync {filename : String} {decoder : Decoder σ} {insert : AsyncInserter σ}
      (decodes : decoder.Steady) (inserts : insert.settled.ByRecord) :
      Steady (.populateAsync filename decoder insert)

/-- The labels of the records of the file, as it would be loaded now. It has none where it can not
be loaded. -/
def labels (source : Source σ) (q : Request σ) (s : Seeder) (w : σ) : List String :=
  match q.file? with
  | none => []
  | some (filename, decoder) =>
    (forthcoming source.environment decoder s.names
      (source.reader filename (some s.baseDir) w)).map Prod.fst

/-- One of the tags of the file, as it would be read now, is a reference to the label. -/
inductive RefersTo (source : Source σ) (q : Request σ) (s : Seeder) (w : σ) (label : String) : Prop
  | intro {filename : String} {decoder : Decoder σ} {raw : String} {w₁ : σ} {t : Split} {tag : Tag}
      (file : q.file? = some (filename, decoder))
      (read : source.reader filename (some s.baseDir) w = (.ok raw, w₁))
      (text : t.text = raw.toList) (clear : t.Clear) (mem : tag ∈ t.tags)
      (directive : tag.directive = "REF") (key : tag.key = label)

/-- Such a label is the key of one of the tags. -/
theorem RefersTo.mem_keys {source : Source σ} {q : Request σ} {s : Seeder} {w w₁ : σ}
    {filename label raw : String} {decoder : Decoder σ} (h : q.RefersTo source s w label)
    (hfile : q.file? = some (filename, decoder))
    (read : source.reader filename (some s.baseDir) w = (.ok raw, w₁)) :
    label ∈ (Template.ofText raw).holes.map (·.2.key) := by
  obtain ⟨hfile', read', ht, hc, hmem, -, rfl⟩ := h
  cases hfile'.symm.trans hfile
  cases read'.symm.trans read
  rw [Split.tags_eq ht hc] at hmem
  obtain ⟨hole, hhole, rfl⟩ := List.mem_map.1 hmem
  exact List.mem_map_of_mem hhole

structure Repeats (source : Source σ) (q : Request σ) (st st' : Seeder × σ) : Prop where
  result : (q.perform source st').1 = (q.perform source st).1
  handed : q.handed source st'.1 st'.2 = q.handed source st.1 st.2

structure AnswersAlike (source : Source σ) (q : Request σ) (s s' : Seeder) (w w' : σ)
    (added : List (String × Identifier)) : Prop extends Repeats source q (s, w) (s', w') where
  labels : ∀ p ∈ added, p.1 ∈ q.labels source s w
  names : (q.perform source (s, w)).2.1.names = s.names.registered added
  names' : (q.perform source (s', w')).2.1.names = s'.names.registered added
  baseDir : (q.perform source (s, w)).2.1.baseDir = s.baseDir

section answersAlike

variable {source : Source σ} {q : Request σ} {filename : String} {decoder : Decoder σ}
  {insert : Inserter σ} {s s' : Seeder} {w w' : σ} {added : List (String × Identifier)}

theorem Steady.exists_inserter (h : q.Steady) (source : Source σ) :
    ∃ filename decoder, ∃ insert : Inserter σ,
      q.file? = some (filename, decoder) ∧ decoder.Steady ∧ insert.ByRecord ∧
      q.perform source = Seeder.populate source filename decoder insert ∧
      q.noting.perform source.noting =
        Seeder.populate source.noting filename decoder.noting insert.noting := by
  cases h with
  | @populate filename decoder insert decodes inserts =>
    exact ⟨filename, decoder, insert, rfl, decodes, inserts, rfl, rfl⟩
  | @populateAsync filename decoder insert decodes inserts =>
    exact ⟨filename, decoder, insert.settled, rfl, decodes, inserts,
      Seeder.populateAsync_eq source filename decoder insert,
      Seeder.populateAsync_eq source.noting filename decoder.noting insert.noting⟩

theorem labels_of_yields {records : Records} {w₁ : σ} (hfile : q.file? = some (filename, decoder))
    (yields : LoadYields source filename decoder (some s.baseDir) s.names w records w₁) :
    q.labels source s w = records.entries.map Prod.fst := by
  rw [labels, hfile, yields.entries_eq]

/-- The load of a file is the same where its references are. -/
theorem load_alike (hsource : source.Steady) (hd : decoder.Steady)
    (hfile : q.file? = some (filename, decoder)) (hdir : s'.baseDir = s.baseDir)
    (hlookup : ∀ label, q.RefersTo source s w label → s'.lookup label = s.lookup label)
    {r : Except Thrown Records} {w₁ : σ}
    (load : loadRecords source filename decoder (some s.baseDir) s.names w = (r, w₁)) (w' : σ) :
    ∃ w₁', loadRecords source filename decoder (some s'.baseDir) s'.names w' = (r, w₁') := by
  have hcongr : loadRecords source filename decoder (some s.baseDir) s'.names w = (r, w₁) := by
    rw [← load]
    refine loadRecords_congr fun raw w₁ read t ht hc tag hmem href => ?_
    exact hlookup tag.key (.intro hfile read ht hc hmem href rfl)
  rw [hdir]
  exact (steady_loadRecords hsource filename hd (some s.baseDir) s'.names).run hcongr w'

theorem AnswersAlike.of_ends {r : Except Thrown (List Identifier)} {s₁ s₁' : Seeder}
    {new new' : List Call} {w₁ w₁' : σ}
    (h : Seeder.Ends (q.perform source) (q.noting.perform source.noting) s w [] r s₁ new w₁)
    (h' : Seeder.Ends (q.perform source) (q.noting.perform source.noting) s' w' [] r s₁' new' w₁')
    (handed : new'.filterMap Call.record? = new.filterMap Call.record?)
    (labels : ∀ p ∈ added, p.1 ∈ q.labels source s w)
    (names : s₁.names = s.names.registered added) (names' : s₁'.names = s'.names.registered added)
    (baseDir : s₁.baseDir = s.baseDir) : q.AnswersAlike source s s' w w' added where
  result := by rw [h.1, h'.1]
  handed := by
    rw [Request.handed, Request.handed, calls, calls, h.2, h'.2]
    exact handed
  labels := labels
  names := by rw [h.1, names]
  names' := by rw [h'.1, names']
  baseDir := by rw [h.1, baseDir]

/-- What a call does depends on no more of the registry than the labels that its file refers to. -/
theorem Steady.answersAlike (hq : q.Steady) (hsource : source.Steady)
    (hdir : s'.baseDir = s.baseDir)
    (hlookup : ∀ label, q.RefersTo source s w label → s'.lookup label = s.lookup label) (w' : σ) :
    ∃ added, q.AnswersAlike source s s' w w' added := by
  obtain ⟨filename, decoder, insert, hfile, hd, hi, hp, hn⟩ := hq.exists_inserter source
  obtain ⟨r, s₁, new, w₁, hends, hending⟩ :=
    Seeder.exists_ending source filename decoder insert s [] w
  rw [← hp, ← hn] at hends
  cases hending with
  | unloaded fails load asked =>
    obtain ⟨w₁', load'⟩ := load_alike hsource hd hfile hdir hlookup load w'
    obtain ⟨new', asked', hends'⟩ := Seeder.ends_unloaded insert [] load'
    rw [← hp, ← hn] at hends'
    refine ⟨[], .of_ends hends hends' ?_ (List.forall_mem_nil _) rfl rfl rfl⟩
    rw [asked.record?, asked'.record?]
  | @stopped records new done label record ids e names w₁ w₂ yields asked fails =>
    obtain ⟨w₁', load'⟩ := load_alike hsource hd hfile hdir hlookup yields.run w'
    obtain ⟨⟨names', w₂'⟩, fails'⟩ := Seeder.failsAt_byRecord hi fails (s'.names, w₁')
    obtain ⟨new', asked', hends'⟩ := Seeder.ends_stopped [] load' fails'
    rw [← hp, ← hn] at hends'
    have hkept := Seeder.registerAll_kept filename (s.loaded filename) ((done.map Prod.fst).zip ids)
    obtain ⟨⟨rest, hsplit⟩, -⟩ := fails.split
    refine ⟨(done.map Prod.fst).zip ids, .of_ends hends hends' ?_ ?_ hkept.1
      (Seeder.registerAll_kept filename (s'.loaded filename) _).1 hkept.2.2⟩
    · exact (asked'.record?_append _).trans (asked.record?_append _).symm
    · intro p hp
      rw [labels_of_yields hfile yields, hsplit, List.map_append]
      exact List.mem_append_left _ (List.of_mem_zip hp).1
  | @finished records new ids names w₁ w₂ yields asked each =>
    obtain ⟨w₁', load'⟩ := load_alike hsource hd hfile hdir hlookup yields.run w'
    obtain ⟨⟨names', w₂'⟩, each'⟩ := Seeder.each_byRecord hi each (s'.names, w₁')
    obtain ⟨new', asked', hends'⟩ := Seeder.ends_finished [] load' each'
    rw [← hp, ← hn] at hends'
    have hkept := Seeder.registerAll_kept filename (s.loaded filename)
      ((records.entries.map Prod.fst).zip ids)
    refine ⟨(records.entries.map Prod.fst).zip ids, .of_ends hends hends' ?_ ?_ hkept.1
      (Seeder.registerAll_kept filename (s'.loaded filename) _).1 hkept.2.2⟩
    · exact (asked'.record?_append _).trans (asked.record?_append _).symm
    · intro p hp
      rw [labels_of_yields hfile yields]
      exact (List.of_mem_zip hp).1

theorem AnswersAlike.lookup_eq (h : q.AnswersAlike source s s' w w' added) {label : String}
    (hl : label ∉ q.labels source s w) :
    (q.perform source (s, w)).2.1.lookup label = s.lookup label := by
  have hnot : label ∉ added.map Prod.fst := by
    intro hmem
    obtain ⟨p, hp, rfl⟩ := List.mem_map.1 hmem
    exact hl (h.labels p hp)
  rw [Seeder.lookup, h.names, Registry.lookup_registered_of_not_mem _ hnot, Seeder.lookup]

end answersAlike

end Request

/-! ### Two calls -/

/-- No label stands in both files, and neither file refers to a label of the other. -/
structure Independent (source : Source σ) (a b : Request σ) (s : Seeder) (w : σ) : Prop where
  labels : ∀ label ∈ a.labels source s w, label ∉ b.labels source s w
  references : ∀ label, a.RefersTo source s w label → label ∉ b.labels source s w
  references' : ∀ label, b.RefersTo source s w label → label ∉ a.labels source s w

/-- Two calls may be made in either order: each does what it would do without the other, and in the
end the same is found under every label. -/
structure Commute (source : Source σ) (a b : Request σ) (s : Seeder) (w : σ) : Prop where
  first : a.Repeats source (s, w) (b.perform source (s, w)).2
  second : b.Repeats source (s, w) (a.perform source (s, w)).2
  lookup : ∀ label, (Seeder.performAll source [a, b] (s, w)).1.lookup label =
    (Seeder.performAll source [b, a] (s, w)).1.lookup label

/-- Files that have nothing to do with each other may be populated in either order, whatever the
seeder and however their calls end. -/
theorem independent_files_commute {source : Source σ} {a b : Request σ} {s : Seeder} {w : σ}
    (hsource : source.Steady) (ha : a.Steady) (hb : b.Steady) (h : Independent source a b s w) :
    Commute source a b s w := by
  obtain ⟨_, ha₀⟩ := ha.answersAlike hsource rfl (fun _ _ => rfl) w
  obtain ⟨_, hb₀⟩ := hb.answersAlike hsource rfl (fun _ _ => rfl) w
  -- neither call changes what the references of the other one stand for
  obtain ⟨added, ha'⟩ := ha.answersAlike hsource hb₀.baseDir
    (fun label href => hb₀.lookup_eq (h.references label href)) (b.perform source (s, w)).2.2
  obtain ⟨added', hb'⟩ := hb.answersAlike hsource ha₀.baseDir
    (fun label href => ha₀.lookup_eq (h.references' label href)) (a.perform source (s, w)).2.2
  refine ⟨ha'.toRepeats, hb'.toRepeats, fun label => ?_⟩
  have hdisjoint : ∀ l ∈ added.map Prod.fst, l ∉ added'.map Prod.fst := by
    intro l hl hl'
    obtain ⟨p, hp, rfl⟩ := List.mem_map.1 hl
    obtain ⟨p', hp', hpp'⟩ := List.mem_map.1 hl'
    exact h.labels p.1 (ha'.labels p hp) (hpp' ▸ hb'.labels p' hp')
  have hab : (Seeder.performAll source [a, b] (s, w)).1.names =
      (s.names.registered added).registered added' := by
    rw [← ha'.names]
    exact hb'.names'
  have hba : (Seeder.performAll source [b, a] (s, w)).1.names =
      (s.names.registered added').registered added := by
    rw [← hb'.names]
    exact ha'.names'
  rw [Seeder.lookup, Seeder.lookup, hab, hba]
  exact s.names.lookup_registered_comm hdisjoint label

def Source.referring : Source Unit where
  reader filename _ := pure (if filename = "a" then "$\x7b\x7b REF(c) \x7d\x7d" else "x")
  environment := .ofVariables []

def Request.referring : Request Unit := .populate "a" (.single "a") fun _ _ => pure (.text "1")

def Request.failing : Request Unit :=
  .populateAsync "b" (.single "b") fun _ _ => pure (.threw (.value .null))

/-- The reference is to a label of an earlier file, so it does not matter that a call fails. -/
theorem referring_commutes_with_failing :
    Source.referring.Steady ∧ Request.referring.Steady ∧ Request.failing.Steady ∧
    Independent .referring .referring .failing { names := .ofEntries [("c", "7")] } () ∧
    Commute .referring .referring .failing { names := .ofEntries [("c", "7")] } () := by
  have hsource : Source.referring.Steady := ⟨fun _ _ _ _ => rfl, fun _ _ _ => rfl⟩
  have hreferring : Request.referring.Steady :=
    .populate (fun _ _ _ => rfl) fun _ _ _ _ _ => rfl
  have hfailing : Request.failing.Steady :=
    .populateAsync (fun _ _ _ => rfl) fun _ _ _ _ _ => rfl
  have hlabels : Request.referring.labels .referring { names := .ofEntries [("c", "7")] } () =
      ["a"] := by decide +kernel
  have hlabels' : Request.failing.labels .referring { names := .ofEntries [("c", "7")] } () =
      ["b"] := by decide +kernel
  have hindependent : Independent .referring .referring .failing
      { names := .ofEntries [("c", "7")] } () := by
    constructor
    · rw [hlabels, hlabels']
      decide
    · rw [hlabels']
      intro label href
      have hkeys : (Template.ofText "$\x7b\x7b REF(c) \x7d\x7d").holes.map (·.2.key) = ["c"] := by
        decide +kernel
      have hmem : label ∈ ["c"] := hkeys ▸ href.mem_keys rfl rfl
      rw [List.mem_singleton.1 hmem]
      decide
    · intro label href
      have hkeys : (Template.ofText "x").holes.map (·.2.key) = [] := by
        decide +kernel
      have hmem : label ∈ [] := hkeys ▸ href.mem_keys rfl rfl
      cases hmem
  exact ⟨hsource, hreferring, hfailing, hindependent,
    independent_files_commute hsource hreferring hfailing hindependent⟩

end Seedbed
