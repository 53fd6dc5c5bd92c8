import Seedbed.Proofs.Seeder.Populate

/-! Sessions of a seeder: any calls one after the other, each ended before the next one begins,
whether it succeeds or fails. The registry answers with the last identifier that was inserted under
a label in the session, and this is what tags in the next file stand for. -/

namespace Seedbed

inductive Request (σ : Type)
  | setDir (dir : String)
  | populate (filename : String) (decoder : Decoder σ) (insert : Inserter σ)
  | populateAsync (filename : String) (decoder : Decoder σ) (insert : AsyncInserter σ)

namespace Request

variable {σ : Type}

/-- Makes the call. One that only sets the directory answers with no identifiers. -/
def perform (source : Source σ) : Request σ → Action (Seeder × σ) (List Identifier)
  | setDir dir => do
    Action.change (Seeder.setDir dir)
    return []
  | populate filename decoder insert => Seeder.populate source filename decoder insert
  | populateAsync filename decoder insert => Seeder.populateAsync source filename decoder insert

def noting : Request σ → Request (List Call × σ)
  | setDir dir => setDir dir
  | populate filename decoder insert => populate filename decoder.noting insert.noting
  | populateAsync filename decoder insert => populateAsync filename decoder.noting insert.noting

def file? : Request σ → Option (String × Decoder σ)
  | setDir _ => none
  | populate filename decoder _ => some (filename, decoder)
  | populateAsync filename decoder _ => some (filename, decoder)

/-- A call that populates a file does so by a function that answers at once, or that waits. -/
theorem exists_inserter {q : Request σ} {filename : String} {decoder : Decoder σ}
    (h : q.file? = some (filename, decoder)) (source : Source σ) : ∃ insert : Inserter σ,
      q.perform source = Seeder.populate source filename decoder insert ∧
      q.noting.perform source.noting =
        Seeder.populate source.noting filename decoder.noting insert.noting := by
  cases q with
  | setDir dir => cases h
  | populate filename decoder insert =>
    cases h
    exact ⟨insert, rfl, rfl⟩
  | populateAsync filename decoder insert =>
    cases h
    exact ⟨insert.settled, Seeder.populateAsync_eq source filename decoder insert,
      Seeder.populateAsync_eq source.noting filename decoder.noting insert.noting⟩

end Request

namespace Call

/-- The text of the identifier that the last insert under a label answered with. -/
def lastText (calls : List Call) (label : String) : Option String :=
  ((inserted [] calls).reverse.lookup label).map Identifier.toText

theorem lastText_eq_none_iff {calls : List Call} {label : String} :
    lastText calls label = none ↔ ∀ id, (label, id) ∉ inserted [] calls := by
  rw [lastText, Option.map_eq_none_iff, List.lookup_eq_none_iff]
  constructor
  · intro h id hid
    exact bne_iff_ne.1 (h (label, id) (List.mem_reverse.2 hid)) rfl
  · rintro h ⟨l, id⟩ hp
    rw [bne_iff_ne]
    rintro rfl
    exact h id (List.mem_reverse.1 hp)

/-- An insert that throws takes nothing back. -/
example : lastText [.decode "" (.ok (.ofList [("a", .null), ("b", .null)])),
    .insert .null (.ok (.text "1")), .insert .null (.error (.value .absent)),
    .decode "" (.ok (.ofList [("c", .null)])), .insert .null (.ok (.text "2"))] "a" = some "1" :=
  rfl

def Adds (new : List Call) (added : List (String × Identifier)) : Prop :=
  ∀ pending, ∃ left, ∀ rest, inserted pending (new ++ rest) = added ++ inserted left rest

theorem Adds.nil : Adds [] [] := fun pending => ⟨pending, fun _ => rfl⟩

theorem Adds.append {a b : List Call} {x y : List (String × Identifier)} (ha : Adds a x)
    (hb : Adds b y) : Adds (a ++ b) (x ++ y) := by
  intro pending
  obtain ⟨left, hleft⟩ := ha pending
  obtain ⟨left', hleft'⟩ := hb left
  exact ⟨left', fun rest => by rw [List.append_assoc, hleft, hleft', List.append_assoc]⟩

theorem Adds.inserted_eq {calls : List Call} {added : List (String × Identifier)}
    (h : Adds calls added) : inserted [] calls = added := by
  obtain ⟨left, hleft⟩ := h []
  have h' := hleft []
  rwa [List.append_nil, inserted, List.append_nil] at h'

end Call

namespace Seeder

variable {σ : Type} {source : Source σ} {s : Seeder} {w : σ}

/-! ### One call -/

theorem populate_ends (source : Source σ) (filename : String) (decoder : Decoder σ)
    (insert : Inserter σ) (s : Seeder) (calls : List Call) (w : σ) :
    ∃ r s' w' new inserts added,
      LoadCalls source filename decoder (some s.baseDir) s.names w new ∧
      inserts.filterMap Call.text? = [] ∧
      Ends (populate source filename decoder insert)
        (populate source.noting filename decoder.noting insert.noting) s w calls r s'
        (new ++ inserts) w' ∧
      s'.names = s.names.registered added ∧ Call.Adds (new ++ inserts) added := by
  obtain ⟨r, s', new, w', hends, h⟩ := exists_ending source filename decoder insert s calls w
  cases h with
  | @unloaded e _ _ fails load asked =>
    refine ⟨.error e, s.loadFailed filename e, w', new, [], [], asked, rfl, ?_, rfl,
      fun pending => ⟨pending, fun rest => ?_⟩⟩
    · rwa [List.append_nil]
    · rw [List.append_nil, asked.inserted_of_fails fails, List.nil_append]
  | finished yields asked each =>
    refine ⟨_, _, _, _, _, _, asked, insertCalls_text? _ _, hends,
      (registerAll_kept filename _ _).1, fun pending => ⟨[], fun rest => ?_⟩⟩
    rw [List.append_assoc, asked.inserted_of_yields yields, ← inserted_insertCalls each.length,
      List.append_nil]
  | stopped yields asked fails =>
    obtain ⟨⟨later, hsplit⟩, w₂, hdone, -⟩ := fails.split
    refine ⟨_, _, _, _, _, _, asked, ?_, hends,
      (registerAll_kept filename _ _).1, fun pending => ⟨later, fun rest => ?_⟩⟩
    · rw [List.filterMap_append, insertCalls_text?]
      rfl
    · rw [List.append_assoc, asked.inserted_of_yields yields, hsplit, List.append_assoc,
        inserted_insertCalls hdone.length]
      rfl

/-- What a call adds to the registry is what it inserted, also where it fails. -/
theorem request_ends (source : Source σ) (q : Request σ) (s : Seeder) (calls : List Call) (w : σ) :
    ∃ r s' w' new added,
      Ends (q.perform source) (q.noting.perform source.noting) s w calls r s' new w' ∧
      s'.names = s.names.registered added ∧ Call.Adds new added := by
  cases hq : q.file? with
  | none =>
    cases q with
    | setDir dir =>
      refine ⟨.ok [], s.setDir dir, w, [], [], ⟨rfl, ?_⟩, rfl, .nil⟩
      rw [List.append_nil]
      rfl
    | populate filename decoder insert => cases hq
    | populateAsync filename decoder insert => cases hq
  | some file =>
    obtain ⟨filename, decoder⟩ := file
    obtain ⟨insert, hp, hn⟩ := Request.exists_inserter hq source
    obtain ⟨r, s', w', new, inserts, added, -, -, hends, hnames, hadds⟩ :=
      populate_ends source filename decoder insert s calls w
    rw [hp, hn]
    exact ⟨r, s', w', new ++ inserts, added, hends, hnames, hadds⟩

/-! ### All calls -/

def performAll (source : Source σ) (requests : List (Request σ)) (st : Seeder × σ) : Seeder × σ :=
  requests.foldl (fun st q => (q.perform source st).2) st

theorem performAll_ends (source : Source σ) (requests : List (Request σ)) (s : Seeder)
    (calls : List Call) (w : σ) :
    ∃ s' w' new added, performAll source requests (s, w) = (s', w') ∧
      performAll source.noting (requests.map Request.noting) (s, (calls, w)) =
        (s', (calls ++ new, w')) ∧
      s'.names = s.names.registered added ∧ Call.Adds new added := by
  -- the calls so far grow, so the induction is for any of them
  induction requests generalizing s calls w with
  | nil => exact ⟨s, w, [], [], rfl, by rw [List.append_nil]; rfl, rfl, .nil⟩
  | cons q requests ih =>
    obtain ⟨r, s₁, w₁, new, added, ⟨hrun, hwatched⟩, hnames, hadds⟩ :=
      request_ends source q s calls w
    obtain ⟨s', w', new', added', hrun', hwatched', hnames', hadds'⟩ := ih s₁ (calls ++ new) w₁
    refine ⟨s', w', new ++ new', added ++ added', ?_, ?_, ?_, hadds.append hadds'⟩
    · rw [← hrun', performAll, List.foldl_cons, hrun]
      rfl
    · rw [← List.append_assoc, ← hwatched', performAll, List.map_cons, List.foldl_cons, hwatched]
      rfl
    · rw [hnames', hnames, Registry.registered_append]

/-! ### The tags of the next file -/

/-- What the tags of a file become in a call that follows the given calls. The text of the file is
cut into `t`, and `w₁` is the caller's state once it is read. -/
structure Fills (source : Source σ) (s : Seeder) (w : σ) (calls : List Call) (q : Request σ)
    (filename : String) (t : Split) (w₁ : σ) : Prop where
  /-- Each tag has a text. The decoder sees just these texts in the places of the tags, and the text
  of a reference is that of the last insert. -/
  resolved : ∀ texts w₂,
    Action.Each (Tag.resolve ⟨s.names, source.environment⟩) t.tags w₁ texts w₂ →
    (∃ r s' new w', Ends (q.perform source) (q.noting.perform source.noting) s w calls r s' new w' ∧
      new.filterMap Call.text? = [.ofList (t.fill texts)]) ∧
    ∀ p ∈ t.tags.zip texts, p.1.directive = "REF" → Call.lastText calls p.1.key = some p.2
  /-- The first tag that has no text is a reference to a label under which nothing was inserted. -/
  unresolved : ∀ done tag rest texts w₂, t.tags = done ++ tag :: rest →
    Action.Each (Tag.resolve ⟨s.names, source.environment⟩) done w₁ texts w₂ →
    tag.directive = "REF" → Call.lastText calls tag.key = none →
    ∃ f s' new,
      Ends (q.perform source) (q.noting.perform source.noting) s w calls (.error (.fault f)) s'
        new w₂ ∧
      f.code = .unresolvedReference ∧
      f.context = { filename := some filename, key := some tag.key, directive := some "REF" } ∧
      new.filterMap Call.text? = []

theorem fills {calls : List Call} (hs : ∀ l, s.lookup l = Call.lastText calls l) {q : Request σ}
    {filename : String} {decoder : Decoder σ} (hq : q.file? = some (filename, decoder))
    {raw : String} {w₁ : σ} (read : source.reader filename (some s.baseDir) w = (.ok raw, w₁))
    {t : Split} (ht : t.text = raw.toList) (hc : t.Clear) :
    Fills source s w calls q filename t w₁ := by
  obtain ⟨insert, hp, hn⟩ := Request.exists_inserter hq source
  constructor
  · intro texts w₂ hr
    refine ⟨?_, ?_⟩
    · obtain ⟨r, s', w', new, inserts, -, hnew, hinserts, hends, -⟩ :=
        populate_ends source filename decoder insert s calls w
      rw [hp, hn]
      refine ⟨r, s', new ++ inserts, w', hends, ?_⟩
      rw [List.filterMap_append, hnew.text?_of_resolved read (substitute_ok ht hc hr), hinserts]
      rfl
    · intro p hmem href
      obtain ⟨w₃, w₄, hp⟩ := hr.exists_of_mem_zip hmem
      rw [← hs, lookup]
      exact Tag.lookup_of_resolve _ href hp
  · intro done tag rest texts w₂ htags hr href hlast
    have hlookup : s.names.lookup tag.key = none := (hs tag.key).trans hlast
    have hsub := substitute_stopped ht hc htags hr (Tag.resolve_missing _ href hlookup w₂)
    obtain ⟨new, hnew, hends⟩ := ends_unloaded insert calls (loadRecords_of_unresolved read hsub)
    rw [hp, hn]
    exact ⟨_, _, new, hends, rfl, rfl, hnew.text?_of_unresolved read hsub⟩

/-- After any session from a new seeder a label is found just if something was inserted under it,
and then the last identifier is. The tags of the next file that is read stand for the same. -/
theorem session_registry (source : Source σ) (dir : String) (requests : List (Request σ)) (w : σ) :
    ∃ s w' calls,
      performAll source requests ({ baseDir := dir }, w) = (s, w') ∧
      performAll source.noting (requests.map Request.noting) ({ baseDir := dir }, ([], w)) =
        (s, (calls, w')) ∧
      (∀ l, s.lookup l = Call.lastText calls l) ∧
      (∀ l, s.lookup l = none ↔ ∀ id, (l, id) ∉ Call.inserted [] calls) ∧
      ∀ q filename decoder, Request.file? q = some (filename, decoder) →
        ∀ raw w₁, source.reader filename (some s.baseDir) w' = (.ok raw, w₁) →
        ∀ t : Split, t.text = raw.toList → t.Clear → Fills source s w' calls q filename t w₁ := by
  obtain ⟨s, w', calls, added, hrun, hwatched, hnames, hadds⟩ :=
    performAll_ends source requests { baseDir := dir } [] w
  have hlookup : ∀ l, s.lookup l = Call.lastText calls l := by
    intro l
    rw [lookup, hnames, Registry.lookup_registered, Call.lastText, hadds.inserted_eq]
    exact Option.or_none
  refine ⟨s, w', calls, hrun, hwatched, hlookup, ?_, ?_⟩
  · intro l
    rw [hlookup, Call.lastText_eq_none_iff]
  · intro q filename decoder hq raw w₁ read t ht hc
    exact fills hlookup hq read ht hc

end Seeder

end Seedbed
