import LeadSheet.Proofs.Harmony.KeySignature
import LeadSheet.Proofs.Outcome
import LeadSheet.Proofs.Rows
import LeadSheet.Session.Transposition

/-!
What a song says, without the numbers of its notes and logs, and how it is moved by semitones. Two
moves are one move by their sum, as long as all keys lie in the circle of fifths.
-/
namespace LeadSheet
open KeySignature (InCircle)

/-- A note without its spelling: its pitch, its times and its place in the text. -/
structure Heard where
  pitch : Except Failure Int
  start : Datum
  duration : Datum
  location : Datum

def NoteEntry.heard (e : NoteEntry) : Heard :=
  ⟨e.name.toText >>= NoteName.pitch, e.start, e.duration, e.location⟩

/-- What a page says. -/
structure Content where
  notes : List Heard
  metadata : Datum
  logs : LogKind → Datum
  name : Datum

namespace Session

def contentOf (s : Session) (page : Page) : Content :=
  ⟨page.notes.map fun n => (s.note n).heard, page.metadata, s.logOf page, page.name⟩

end Session

/-- What a song says, and what its tracks say, with their keys. -/
structure SongContent where
  page : Content
  tracks : Option (List (Datum × Content))

/-- What the song at hand says. -/
def Session.content (s : Session) : SongContent where
  page := s.contentOf s.page
  tracks := s.page.tracks.map (·.map fun track => (track.1, s.contentOf (s.pageAt track.2)))

/-! ### Moved by semitones -/

def Heard.moved (k : Int) (h : Heard) : Heard := { h with pitch := h.pitch.map (· + k) }

/-- A count that is a whole number moves around the circle of fifths. -/
def movedCount (k : Int) : Datum → Datum
  | .whole n => .whole (KeySignature.transposeCount n k)
  | d => d

/-- A field of the metadata; only the key moves. -/
def movedField (k : Int) (f : String × Datum) : String × Datum :=
  if f.1 = "keySignature" then (f.1, movedCount k f.2) else f

def movedMetadata (k : Int) : Datum → Datum
  | .record fields => .record (fields.map (movedField k))
  | d => d

def movedChange (k : Int) : Datum → Datum
  | .tuple [beat, count, location] => .tuple [beat, movedCount k count, location]
  | d => d

/-- A log of keys with each count moved. -/
def movedKeys (k : Int) : Datum → Datum
  | .list entries => .list (entries.map (movedChange k))
  | d => d

def Content.moved (k : Int) (c : Content) : Content where
  notes := c.notes.map (Heard.moved k)
  metadata := movedMetadata k c.metadata
  logs kind := if kind = .keySignatures then movedKeys k (c.logs kind) else c.logs kind
  name := c.name

def SongContent.moved (k : Int) (c : SongContent) : SongContent where
  page := c.page.moved k
  tracks := c.tracks.map (·.map fun track => (track.1, track.2.moved k))

/-! ### Content in good order -/

/-- A count of a key from six flats to five sharps. -/
def IsCount (d : Datum) : Prop := ∃ n, d = .whole n ∧ InCircle n

/-- A change of key as it is logged: a beat, a count, and a place in the text. -/
def IsChange (d : Datum) : Prop :=
  ∃ beat count location, d = .tuple [beat, count, location] ∧ IsCount count

/-- Notes have pitches, metadata is a record, logs are lists, and all keys lie in the circle of
fifths. -/
structure Content.Regular (P : Int → Prop) (c : Content) : Prop where
  notes : ∀ note ∈ c.notes, ∃ p, note.pitch = .ok p ∧ P p
  metadata : ∃ fields, c.metadata = .record fields ∧ (fields.map Prod.fst).Nodup ∧
    ∀ count, ("keySignature", count) ∈ fields → IsCount count
  logs : ∀ kind, ∃ entries, c.logs kind = .list entries
  keys : ∀ entries, c.logs .keySignatures = .list entries → ∀ entry ∈ entries, IsChange entry

structure SongContent.Regular (P : Int → Prop) (c : SongContent) : Prop where
  page : c.page.Regular P
  tracks : ∀ tracks ∈ c.tracks, ∀ track ∈ tracks, track.2.Regular P

/-! ### One move after the other -/

private theorem movedCount_zero {d : Datum} (h : IsCount d) : movedCount 0 d = d := by
  obtain ⟨n, rfl, -⟩ := h
  rw [movedCount, KeySignature.transposeCount_zero]

private theorem movedCount_movedCount {d : Datum} (h : IsCount d) (j k : Int) :
    movedCount k (movedCount j d) = movedCount (j + k) d := by
  obtain ⟨n, rfl, hn⟩ := h
  rw [movedCount, movedCount, movedCount, KeySignature.transposeCount_add hn]

private theorem isCount_movedCount {d : Datum} (h : IsCount d) (k : Int) :
    IsCount (movedCount k d) := by
  obtain ⟨n, rfl, hn⟩ := h
  exact ⟨_, rfl, KeySignature.inCircle_transposeCount hn k⟩

section
variable {f : String × Datum} (h : f.1 = "keySignature" → IsCount f.2)
include h

private theorem movedField_zero : movedField 0 f = f := by
  rw [movedField]
  split
  · next hk => rw [movedCount_zero (h hk)]
  · rfl

private theorem movedField_movedField (j k : Int) :
    movedField k (movedField j f) = movedField (j + k) f := by
  by_cases hk : f.1 = "keySignature"
  · have hj : movedField j f = (f.1, movedCount j f.2) := if_pos hk
    rw [hj, movedField, if_pos hk, movedCount_movedCount (h hk), movedField, if_pos hk]
  · have hj : movedField j f = f := if_neg hk
    rw [hj, movedField, if_neg hk, movedField, if_neg hk]

end

private theorem fst_movedField (k : Int) (f : String × Datum) : (movedField k f).1 = f.1 := by
  rw [movedField]
  split <;> rfl

private theorem movedChange_zero {d : Datum} (h : IsChange d) : movedChange 0 d = d := by
  obtain ⟨beat, count, location, rfl, hc⟩ := h
  rw [movedChange, movedCount_zero hc]

private theorem movedChange_movedChange {d : Datum} (h : IsChange d) (j k : Int) :
    movedChange k (movedChange j d) = movedChange (j + k) d := by
  obtain ⟨beat, count, location, rfl, hc⟩ := h
  rw [movedChange, movedChange, movedChange, movedCount_movedCount hc]

private theorem isChange_movedChange {d : Datum} (h : IsChange d) (k : Int) : IsChange (movedChange k d) := by
  obtain ⟨beat, count, location, rfl, hc⟩ := h
  exact ⟨beat, _, location, rfl, isCount_movedCount hc k⟩

private theorem Heard.moved_moved (j k : Int) (h : Heard) :
    (h.moved j).moved k = h.moved (j + k) := by
  obtain ⟨pitch, start, duration, location⟩ := h
  cases pitch with
  | error e => rfl
  | ok p =>
    rw [Heard.moved, Heard.moved, Heard.moved]
    dsimp only [Except.map]
    rw [Int.add_assoc]

private theorem Heard.moved_zero (h : Heard) : h.moved 0 = h := by
  obtain ⟨pitch, start, duration, location⟩ := h
  cases pitch with
  | error e => rfl
  | ok p =>
    rw [Heard.moved]
    dsimp only [Except.map]
    rw [Int.add_zero]

namespace Content
variable {P : Int → Prop} {c : Content}

private theorem logs_moved (k : Int) (c : Content) (kind : LogKind) :
    (c.moved k).logs kind =
      if kind = .keySignatures then movedKeys k (c.logs kind) else c.logs kind := rfl

/-- The fields of a record, of which the one for the key has a count. -/
theorem Regular.fields (h : c.Regular P) : ∃ fields, c.metadata = .record fields ∧
    (fields.map Prod.fst).Nodup ∧ ∀ f ∈ fields, f.1 = "keySignature" → IsCount f.2 := by
  obtain ⟨fields, hm, hd, hcount⟩ := h.metadata
  refine ⟨fields, hm, hd, ?_⟩
  rintro ⟨key, value⟩ hf rfl
  exact hcount value hf

private theorem Regular.mono {Q : Int → Prop} (h : c.Regular P) (hPQ : ∀ p, P p → Q p) :
    c.Regular Q where
  notes note hn := by
    obtain ⟨p, hp, hP⟩ := h.notes note hn
    exact ⟨p, hp, hPQ p hP⟩
  metadata := h.metadata
  logs := h.logs
  keys := h.keys

private theorem Regular.moved_zero (h : c.Regular P) : c.moved 0 = c := by
  obtain ⟨fields, hm, -, hcount⟩ := h.fields
  have hmetadata : movedMetadata 0 c.metadata = c.metadata := by
    rw [hm, movedMetadata, map_eq_self fun f hf => movedField_zero (hcount f hf)]
  have hlogs : (c.moved 0).logs = c.logs := by
    funext kind
    rw [logs_moved]
    split
    · next hk =>
      cases hk
      obtain ⟨entries, he⟩ := h.logs .keySignatures
      rw [he, movedKeys, map_eq_self fun entry hentry =>
        movedChange_zero (h.keys entries he entry hentry)]
    · rfl
  have hnotes : c.notes.map (Heard.moved 0) = c.notes := map_eq_self fun h _ => h.moved_zero
  rw [Content.moved] at hlogs ⊢
  dsimp only at hlogs
  rw [hnotes, hmetadata, hlogs]

private theorem Regular.moved_moved (h : c.Regular P) (j k : Int) :
    (c.moved j).moved k = c.moved (j + k) := by
  obtain ⟨fields, hm, -, hcount⟩ := h.fields
  have hmetadata : movedMetadata k (movedMetadata j c.metadata) =
      movedMetadata (j + k) c.metadata := by
    rw [hm, movedMetadata, movedMetadata, movedMetadata, List.map_map]
    exact congrArg Datum.record
      (List.map_congr_left fun f hf => movedField_movedField (hcount f hf) j k)
  have hlogs : ((c.moved j).moved k).logs = (c.moved (j + k)).logs := by
    funext kind
    rw [logs_moved, logs_moved, logs_moved]
    split
    · next hk =>
      cases hk
      obtain ⟨entries, he⟩ := h.logs .keySignatures
      rw [he, movedKeys, movedKeys, movedKeys, List.map_map]
      exact congrArg Datum.list (List.map_congr_left fun entry hentry =>
        movedChange_movedChange (h.keys entries he entry hentry) j k)
    · rfl
  have hnotes : (c.notes.map (Heard.moved j)).map (Heard.moved k) =
      c.notes.map (Heard.moved (j + k)) := by
    rw [List.map_map]
    exact List.map_congr_left fun h _ => h.moved_moved j k
  rw [Content.moved, Content.moved, Content.moved] at hlogs ⊢
  dsimp only at hlogs ⊢
  rw [hnotes, hmetadata, hlogs]

/-- Content in good order stays so when it is moved. -/
theorem Regular.moved {k : Int} (h : c.Regular fun p => P (p + k)) : (c.moved k).Regular P where
  notes note hn := by
    obtain ⟨heard, hh, rfl⟩ := List.mem_map.mp hn
    obtain ⟨p, hp, hP⟩ := h.notes heard hh
    exact ⟨p + k, by rw [Heard.moved, hp]; rfl, hP⟩
  metadata := by
    obtain ⟨fields, hm, hd, hcount⟩ := h.fields
    have hkeys : (fields.map (movedField k)).map Prod.fst = fields.map Prod.fst := by
      rw [List.map_map]
      exact List.map_congr_left fun f _ => fst_movedField k f
    refine ⟨_, by rw [Content.moved, hm, movedMetadata], hkeys ▸ hd, fun count hc => ?_⟩
    obtain ⟨f, hf, he⟩ := List.mem_map.mp hc
    have hk : f.1 = "keySignature" := (fst_movedField k f).symm.trans (congrArg Prod.fst he)
    rw [movedField, if_pos hk] at he
    exact (Prod.mk.inj he).2 ▸ isCount_movedCount (hcount f hf hk) k
  logs kind := by
    obtain ⟨entries, he⟩ := h.logs kind
    rw [logs_moved]
    split
    · exact ⟨_, by rw [he, movedKeys]⟩
    · exact ⟨entries, he⟩
  keys entries he entry hentry := by
    obtain ⟨entries', he'⟩ := h.logs .keySignatures
    rw [logs_moved, if_pos rfl, he', movedKeys] at he
    cases he
    obtain ⟨entry', hentry', rfl⟩ := List.mem_map.mp hentry
    exact isChange_movedChange (h.keys entries' he' entry' hentry') k

end Content

namespace SongContent
variable {P : Int → Prop} {c : SongContent}

theorem Regular.mono {Q : Int → Prop} (h : c.Regular P) (hPQ : ∀ p, P p → Q p) : c.Regular Q :=
  ⟨h.page.mono hPQ, fun tracks ht track hm => (h.tracks tracks ht track hm).mono hPQ⟩

theorem Regular.moved_zero (h : c.Regular P) : c.moved 0 = c := by
  obtain ⟨page, tracks⟩ := c
  rw [SongContent.moved]
  dsimp only
  rw [h.page.moved_zero]
  cases tracks with
  | none => rfl
  | some tracks =>
    rw [Option.map_some, map_eq_self fun track ht => ?_]
    rw [(h.tracks tracks rfl track ht).moved_zero]

theorem Regular.moved_moved (h : c.Regular P) (j k : Int) :
    (c.moved j).moved k = c.moved (j + k) := by
  obtain ⟨page, tracks⟩ := c
  rw [SongContent.moved, SongContent.moved, SongContent.moved]
  dsimp only
  rw [h.page.moved_moved]
  cases tracks with
  | none => rfl
  | some tracks =>
    rw [Option.map_some, Option.map_some, Option.map_some, List.map_map]
    refine congrArg (SongContent.mk _ <| some ·) (List.map_congr_left fun track ht => ?_)
    rw [Function.comp, (h.tracks tracks rfl track ht).moved_moved]

theorem Regular.moved {k : Int} (h : c.Regular fun p => P (p + k)) : (c.moved k).Regular P where
  page := h.page.moved
  tracks tracks ht track hm := by
    obtain ⟨tracks', ht', rfl⟩ := Option.map_eq_some_iff.mp ht
    obtain ⟨track', hm', rfl⟩ := List.mem_map.mp hm
    exact (h.tracks tracks' ht' track' hm').moved

end SongContent
end LeadSheet
