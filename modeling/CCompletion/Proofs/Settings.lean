import CCompletion.Proofs.Json.Object
import CCompletion.Settings
import Mathlib

/-!
# Settings and their file

Each setting is known by its own entry of the file: it is the value there, if that is one the setting can have,
and its default otherwise. So no entry has a say in another setting, and settings that are written out are read back
as they are.
-/

namespace CCompletion

namespace Settings

variable {α β : Type} {v : Json} {entries : List (Text × Json)}

/-! ## What can be set -/

/-- The settings that a file can state. -/
inductive Key where
  | extensions
  | excluded
  | followsIgnoreFiles
  | maxKilobytes
  | maxFiles
  | mode
  | limit
  | theme
deriving DecidableEq, Repr

/-- A limit is null or a positive whole number, of those that double precision can hold. -/
def IsLimit (v : Json) : Prop :=
  v = .null ∨ ∃ n : Nat, 0 < n ∧ (Number.finite n).IsHeld ∧ v = .number (.finite n)

namespace Key

def all : List Key := [.extensions, .excluded, .followsIgnoreFiles, .maxKilobytes, .maxFiles, .mode, .limit, .theme]

def name : Key → Text
  | .extensions => "extensions"
  | .excluded => "excludeDirs"
  | .followsIgnoreFiles => "respectGitignore"
  | .maxKilobytes => "maxFileSizeKb"
  | .maxFiles => "maxFiles"
  | .mode => "matchMode"
  | .limit => "maxResults"
  | .theme => "theme"

/-- The values that a setting can have. -/
def Accepts : Key → Json → Prop
  | .extensions, v | .excluded, v => ∃ ts, v = Json.ofTexts ts
  | .followsIgnoreFiles, v => ∃ b, v = .bool b
  | .maxKilobytes, v | .maxFiles, v | .limit, v => IsLimit v
  | .mode, v => v = .string "contains" ∨ v = .string "prefix"
  | .theme, v => ∃ t, v = .string t

theorem mem_all (key : Key) : key ∈ all := by cases key <;> decide

theorem nodup_names : (all.map name).Nodup := by decide +kernel

theorem name_injective : Function.Injective name := by
  have hall : ∀ key ∈ all, ∀ other ∈ all, key.name = other.name → key = other := by decide +kernel
  exact fun key other => hall key (mem_all key) other (mem_all other)

end Key

def limitValue : Option Nat → Json
  | some n => .number (.finite n)
  | none => .null

/-- A setting as the value that states it. -/
def value (s : Settings) : Key → Json
  | .extensions => .ofTexts s.extensions
  | .excluded => .ofTexts s.excluded
  | .followsIgnoreFiles => .bool s.followsIgnoreFiles
  | .maxKilobytes => limitValue s.maxKilobytes
  | .maxFiles => limitValue s.maxFiles
  | .mode => StatedSettings.modeJson s.mode
  | .limit => StatedSettings.offerLimitJson s.limit
  | .theme => .string s.theme

end Settings

/-- A stated setting as the value that states it. -/
def StatedSettings.value? (s : StatedSettings) : Settings.Key → Option Json
  | .extensions => s.extensions.map .ofTexts
  | .excluded => s.excluded.map .ofTexts
  | .followsIgnoreFiles => s.followsIgnoreFiles.map .bool
  | .maxKilobytes => s.maxKilobytes.map Settings.limitValue
  | .maxFiles => s.maxFiles.map Settings.limitValue
  | .mode => s.mode.map modeJson
  | .limit => s.limit.map offerLimitJson
  | .theme => s.theme.map .string

namespace Settings

/-! ## Readers of values -/

/-- The reader takes the values of a kind and no others, and the writer gives back what has been read. -/
structure Reads (accepts : Json → Prop) (read : Json → Option α) (write : α → Json) : Prop where
  read_write : ∀ a, accepts (write a) → read (write a) = some a
  write_of_read : ∀ v a, (∀ n, v = .number n → n.IsHeld) → read v = some a → accepts v ∧ write a = v
  exists_write : ∀ v, accepts v → ∃ a, write a = v
  injective : Function.Injective write

theorem Reads.of_eq_some_iff {read : Json → Option α} {write : α → Json}
    (h : ∀ {v a}, read v = some a ↔ v = write a) : Reads (fun v => ∃ a, v = write a) read write where
  read_write _ _ := h.mpr rfl
  write_of_read _ a _ hread := ⟨⟨a, h.mp hread⟩, (h.mp hread).symm⟩
  exists_write v haccepts := by
    obtain ⟨a, rfl⟩ := haccepts
    exact ⟨a, rfl⟩
  injective a b hwrite := by
    have ha : read (write a) = some a := h.mpr rfl
    rw [hwrite, h.mpr rfl] at ha
    exact (Option.some.inj ha).symm

/-- What has been read can be kept in another form. -/
theorem Reads.map {accepts : Json → Prop} {read : Json → Option α} {write : α → Json}
    (hreads : Reads accepts read write) {read' : Json → Option β} {write' : β → Json} (keep : α → β)
    (hread : ∀ v, read' v = (read v).map keep) (hwrite : ∀ a, write' (keep a) = write a)
    (hinjective : Function.Injective write') : Reads accepts read' write' where
  read_write b haccepts := by
    obtain ⟨a, ha⟩ := hreads.exists_write _ haccepts
    obtain rfl : keep a = b := hinjective ((hwrite a).trans ha)
    rw [hwrite] at haccepts ⊢
    rw [hread, hreads.read_write a haccepts, Option.map_some]
  write_of_read v b hheld h := by
    rw [hread] at h
    obtain ⟨a, ha, rfl⟩ := Option.map_eq_some_iff.mp h
    rw [hwrite]
    exact hreads.write_of_read v a hheld ha
  exists_write v haccepts := by
    obtain ⟨a, rfl⟩ := hreads.exists_write v haccepts
    exact ⟨keep a, hwrite a⟩
  injective := hinjective

theorem flag?_eq_some_iff {b : Bool} : flag? v = some b ↔ v = .bool b := by
  constructor
  · intro h
    cases v with
    | bool c => rw [Option.some.inj h]
    | _ => cases h
  · rintro rfl
    rfl

theorem text?_eq_some_iff {t : Text} : text? v = some t ↔ v = .string t := by
  constructor
  · intro h
    cases v with
    | string u => rw [Option.some.inj h]
    | _ => cases h
  · rintro rfl
    rfl

theorem mapM_text?_eq_some_iff {items : List Json} {ts : List Text} :
    items.mapM text? = some ts ↔ items = ts.map Json.string := by
  induction items generalizing ts with
  | nil =>
    rw [List.mapM_nil, eq_comm (a := []), List.map_eq_nil_iff]
    exact ⟨fun h => (Option.some.inj h).symm, fun h => congrArg some h.symm⟩
  | cons item items ih =>
    rw [List.mapM_cons]
    constructor
    · intro h
      obtain ⟨t, ht, h⟩ := Option.bind_eq_some_iff.mp h
      obtain ⟨later, hlater, h⟩ := Option.bind_eq_some_iff.mp h
      rw [← Option.some.inj h, List.map_cons, text?_eq_some_iff.mp ht, ih.mp hlater]
    · intro h
      cases ts with
      | nil => cases h
      | cons t later =>
        obtain ⟨rfl, hitems⟩ := List.cons.inj h
        rw [ih.mpr hitems]
        rfl

theorem texts?_eq_some_iff {ts : List Text} : texts? v = some ts ↔ v = Json.ofTexts ts := by
  cases v with
  | array items => exact mapM_text?_eq_some_iff.trans (Json.array.injEq _ _ ▸ Iff.rfl)
  | _ => exact iff_of_false nofun nofun

theorem reads_flag : Reads (fun v => ∃ b, v = .bool b) flag? Json.bool := .of_eq_some_iff flag?_eq_some_iff

theorem reads_text : Reads (fun v => ∃ t, v = .string t) text? Json.string := .of_eq_some_iff text?_eq_some_iff

theorem reads_texts : Reads (fun v => ∃ ts, v = Json.ofTexts ts) texts? Json.ofTexts :=
  .of_eq_some_iff texts?_eq_some_iff

theorem reads_mode :
    Reads (fun v => v = .string "contains" ∨ v = .string "prefix") mode? StatedSettings.modeJson where
  read_write mode _ := by cases mode <;> decide +kernel
  write_of_read v mode _ h := by
    cases v with
    | string t =>
      change (if t = Text.ofString "contains" then some MatchMode.containing
        else if t = Text.ofString "prefix" then some MatchMode.starting else none) = some mode at h
      split_ifs at h with hcontains hprefix
      · rw [← Option.some.inj h, hcontains]
        exact ⟨.inl rfl, rfl⟩
      · rw [← Option.some.inj h, hprefix]
        exact ⟨.inr rfl, rfl⟩
    | _ => cases h
  exists_write v h := by
    obtain rfl | rfl := h
    · exact ⟨.containing, rfl⟩
    · exact ⟨.starting, rfl⟩
  injective := by
    have hne : (Text.ofString "contains") ≠ Text.ofString "prefix" := by decide +kernel
    intro mode other h
    cases mode <;> cases other
    · rfl
    · exact absurd (Json.string.inj h) hne
    · exact absurd (Json.string.inj h).symm hne
    · rfl

/-- A limit is read from a number that is whole and positive, and no other value is taken for it. -/
theorem positive?_eq_some_iff {n : Number} {k : Nat} : positive? n = some k ↔ 0 < k ∧ n = .finite k := by
  constructor
  · intro h
    unfold positive? at h
    split at h
    · rename_i m hm
      obtain rfl := Option.some.inj h
      refine ⟨Nat.succ_pos m, ?_⟩
      cases n with
      | finite q =>
        have hq : (if q.den = 1 then some q.num else none) = some (Int.ofNat (m + 1)) := hm
        split_ifs at hq with hden
        rw [← (Rat.den_eq_one_iff q).mp hden, Option.some.inj hq]
        rfl
      | _ => cases hm
    · cases h
  · rintro ⟨hpos, rfl⟩
    obtain ⟨m, rfl⟩ := Nat.exists_eq_add_one_of_ne_zero hpos.ne'
    have hint : (Number.finite ((m + 1 : Nat) : Rat)).toInt? = some (Int.ofNat (m + 1)) := by
      show (if ((m + 1 : Nat) : Rat).den = 1 then some ((m + 1 : Nat) : Rat).num else none) = _
      rw [if_pos (Rat.den_natCast _), Rat.num_natCast]
      rfl
    unfold positive?
    rw [hint]

theorem limitValue_injective : Function.Injective limitValue := by
  intro limit other h
  cases limit <;> cases other
  · rfl
  · cases h
  · cases h
  · rw [Nat.cast_injective (Number.finite.inj (Json.number.inj h))]

theorem reads_limit : Reads IsLimit limit? limitValue where
  read_write limit h := by
    obtain h | ⟨n, hpos, -, h⟩ := h
    · obtain rfl : limit = none := limitValue_injective h
      rfl
    · obtain rfl : limit = some n := limitValue_injective h
      exact congrArg (Option.map some) (positive?_eq_some_iff.mpr ⟨hpos, rfl⟩)
  write_of_read v limit hheld h := by
    cases v with
    | null =>
      obtain rfl := Option.some.inj h
      exact ⟨.inl rfl, rfl⟩
    | number n =>
      obtain ⟨k, hk, rfl⟩ := Option.map_eq_some_iff.mp h
      obtain ⟨hpos, rfl⟩ := positive?_eq_some_iff.mp hk
      exact ⟨.inr ⟨k, hpos, hheld _ rfl, rfl⟩, rfl⟩
    | _ => cases h
  exists_write v h := by
    obtain rfl | ⟨n, -, -, rfl⟩ := h
    · exact ⟨none, rfl⟩
    · exact ⟨some n, rfl⟩
  injective := limitValue_injective

theorem offerLimitJson_injective : Function.Injective StatedSettings.offerLimitJson := by
  intro limit other h
  cases limit <;> cases other
  · rfl
  · cases h
  · cases h
  · rw [Json.number.inj h]

/-- A limit that is kept as the number it is. -/
theorem offerLimit?_eq (v : Json) : offerLimit? v = (limit? v).map (Option.map fun n : Nat => Number.finite n) := by
  cases v with
  | number n =>
    show (positive? n).map (fun _ => some n) = ((positive? n).map some).map _
    cases hn : positive? n with
    | none => rfl
    | some k =>
      obtain ⟨-, rfl⟩ := positive?_eq_some_iff.mp hn
      rfl
  | _ => rfl

theorem reads_offerLimit : Reads IsLimit offerLimit? StatedSettings.offerLimitJson := by
  refine reads_limit.map _ offerLimit?_eq (fun limit => ?_) offerLimitJson_injective
  cases limit <;> rfl

/-- An entry that has been read is known by what is written for it. -/
theorem Reads.map_bind_eq_some_iff {accepts : Json → Prop} {read : Json → Option α} {write : α → Json}
    (hreads : Reads accepts read write) {o : Option Json} (hheld : ∀ n, o = some (.number n) → n.IsHeld) :
    (o.bind read).map write = some v ↔ o = some v ∧ accepts v := by
  constructor
  · intro h
    obtain ⟨a, ha, rfl⟩ := Option.map_eq_some_iff.mp h
    obtain ⟨w, rfl, hread⟩ := Option.bind_eq_some_iff.mp ha
    have hw : ∀ n, w = .number n → n.IsHeld := by
      rintro n rfl
      exact hheld n rfl
    obtain ⟨haccepts, hwrite⟩ := hreads.write_of_read w a hw hread
    exact ⟨congrArg some hwrite.symm, hwrite ▸ haccepts⟩
  · rintro ⟨rfl, haccepts⟩
    obtain ⟨a, rfl⟩ := hreads.exists_write v haccepts
    rw [Option.bind_some, hreads.read_write a haccepts, Option.map_some]

theorem Key.isHeld_of_accepts {key : Key} {n : Number} (h : key.Accepts (.number n)) : n.IsHeld := by
  have hlimit : IsLimit (.number n) → n.IsHeld := by
    rintro (hnull | ⟨k, -, hheld, hk⟩)
    · cases hnull
    · rwa [Json.number.inj hk]
  cases key with
  | maxKilobytes => exact hlimit h
  | maxFiles => exact hlimit h
  | limit => exact hlimit h
  | extensions => obtain ⟨_, h⟩ := h; cases h
  | excluded => obtain ⟨_, h⟩ := h; cases h
  | followsIgnoreFiles => obtain ⟨_, h⟩ := h; cases h
  | mode => obtain h | h := h <;> cases h
  | theme => obtain ⟨_, h⟩ := h; cases h

end Settings

namespace StatedSettings

open Settings

variable {α : Type} {s : StatedSettings} {key : Settings.Key} {v : Json} {entries : List (Text × Json)}

/-! ## What an object states -/

/-- An object states a setting where it has an entry for it whose value is one that the setting can have. -/
theorem value?_of_ofJson (h : ofJson (.object entries) = .ok s)
    (hheld : ∀ n, Json.lookup? key.name entries = some (.number n) → n.IsHeld) :
    s.value? key = some v ↔ Json.lookup? key.name entries = some v ∧ key.Accepts v := by
  obtain rfl := Except.ok.inj h
  cases key with
  | extensions => exact reads_texts.map_bind_eq_some_iff hheld
  | excluded => exact reads_texts.map_bind_eq_some_iff hheld
  | followsIgnoreFiles => exact reads_flag.map_bind_eq_some_iff hheld
  | maxKilobytes => exact reads_limit.map_bind_eq_some_iff hheld
  | maxFiles => exact reads_limit.map_bind_eq_some_iff hheld
  | mode => exact reads_mode.map_bind_eq_some_iff hheld
  | limit => exact reads_offerLimit.map_bind_eq_some_iff hheld
  | theme => exact reads_text.map_bind_eq_some_iff hheld

/-- Stated settings are known by the values that state them. -/
theorem ext_value? {r : StatedSettings} (h : ∀ key, s.value? key = r.value? key) : s = r := by
  have hextensions := Option.map_injective reads_texts.injective (h .extensions)
  have hexcluded := Option.map_injective reads_texts.injective (h .excluded)
  have hfollows := Option.map_injective reads_flag.injective (h .followsIgnoreFiles)
  have hkilobytes := Option.map_injective reads_limit.injective (h .maxKilobytes)
  have hfiles := Option.map_injective reads_limit.injective (h .maxFiles)
  have hmode := Option.map_injective reads_mode.injective (h .mode)
  have hlimit := Option.map_injective reads_offerLimit.injective (h .limit)
  have htheme := Option.map_injective reads_text.injective (h .theme)
  cases s
  cases r
  congr

/-! ## What is written for stated settings -/

/-- The entry of a setting, where it is stated. -/
def written (s : StatedSettings) (key : Settings.Key) : List (Text × Json) :=
  (s.value? key).toList.map fun v => (key.name, v)

/-- Every setting that is stated has a value that it can have. -/
def IsValid (s : StatedSettings) : Prop := ∀ key v, s.value? key = some v → key.Accepts v

theorem entry_eq {write : α → Json} (name : String) (o : Option α) :
    entry name write o = (o.map write).toList.map fun v => (Text.ofString name, v) := by
  cases o <;> rfl

theorem limitJson_eq {limit : Option Nat} (h : IsLimit (limitValue limit)) : limitJson limit = limitValue limit := by
  cases limit with
  | none => rfl
  | some n =>
    obtain h | ⟨k, -, hheld, hk⟩ := h
    · cases h
    · have hn : Number.finite n = .finite k := Json.number.inj hk
      -- a number that is held is written as it is
      have hrat : Number.ofNat n = .finite n := by
        unfold Number.ofNat Number.ofInt
        rw [Int.cast_natCast, hn]
        rw [← hn] at hheld
        exact hn ▸ hheld n rfl
      exact congrArg Json.number hrat

theorem entry_limitJson (name : String) {o : Option (Option Nat)} (h : ∀ v, o.map limitValue = some v → IsLimit v) :
    entry name limitJson o = (o.map limitValue).toList.map fun v => (Text.ofString name, v) := by
  cases o with
  | none => rfl
  | some limit =>
    show [(Text.ofString name, limitJson limit)] = [(Text.ofString name, limitValue limit)]
    rw [limitJson_eq (h _ rfl)]

theorem toJson_eq (h : s.IsValid) : s.toJson = .object (Key.all.flatMap s.written) := by
  have hkilobytes : entry "maxFileSizeKb" limitJson s.maxKilobytes = s.written .maxKilobytes :=
    entry_limitJson _ (h .maxKilobytes)
  have hfiles : entry "maxFiles" limitJson s.maxFiles = s.written .maxFiles := entry_limitJson _ (h .maxFiles)
  unfold toJson
  rw [hkilobytes, hfiles]
  simp only [entry_eq, Key.all, List.flatMap_cons, List.flatMap_nil, List.append_nil, List.append_assoc]
  rfl

theorem nodup_written (s : StatedSettings) : ((Key.all.flatMap s.written).map (·.1)).Nodup := by
  have hsub (keys : List Settings.Key) : ((keys.flatMap s.written).map (·.1)).Sublist (keys.map Key.name) := by
    induction keys with
    | nil => exact List.Sublist.slnil
    | cons key keys ih =>
      rw [List.flatMap_cons, List.map_append, List.map_cons]
      unfold written
      cases s.value? key with
      | none => exact ih.cons _
      | some v => exact ih.cons_cons _
  exact (hsub Key.all).nodup Key.nodup_names

theorem lookup?_written (s : StatedSettings) (key : Settings.Key) :
    Json.lookup? key.name (Key.all.flatMap s.written) = s.value? key := by
  apply Option.ext
  intro v
  rw [Json.lookup?_eq_some_iff s.nodup_written, List.mem_flatMap]
  constructor
  · rintro ⟨other, -, hmem⟩
    obtain ⟨w, hw, heq⟩ := List.mem_map.mp hmem
    obtain ⟨hname, rfl⟩ := Prod.mk.inj heq
    obtain rfl := Key.name_injective hname
    exact Option.mem_toList.mp hw
  · intro h
    exact ⟨key, Key.mem_all key, List.mem_map.mpr ⟨v, Option.mem_toList.mpr h, rfl⟩⟩

/-- Settings with values that they can have are read back as they were written. -/
theorem ofJson_toJson (h : s.IsValid) : ofJson s.toJson = .ok s := by
  obtain ⟨r, hr⟩ : ∃ r, ofJson s.toJson = .ok r := ⟨_, congrArg ofJson (toJson_eq h)⟩
  rw [hr]
  congr
  apply ext_value?
  intro key
  apply Option.ext
  intro v
  rw [toJson_eq h] at hr
  have hheld : ∀ n, Json.lookup? key.name (Key.all.flatMap s.written) = some (.number n) → n.IsHeld := by
    intro n hn
    rw [lookup?_written] at hn
    exact Key.isHeld_of_accepts (h key _ hn)
  rw [value?_of_ofJson hr hheld, lookup?_written]
  exact and_iff_left_of_imp (h key v)

/-- What has been read has values that the settings can have. -/
theorem isValid_of_ofJson (h : ofJson (.object entries) = .ok s) (hheld : Json.HoldsNumbers entries) : s.IsValid := by
  intro key v hv
  have hnumber : ∀ n, Json.lookup? key.name entries = some (.number n) → n.IsHeld := fun n hn =>
    hheld key.name n (Json.mem_of_lookup? hn)
  exact ((value?_of_ofJson h hnumber).mp hv).2

end StatedSettings

namespace Settings

variable {s : Settings} {key : Key} {content : Text} {stated : StatedSettings} {v w : Json}
  {entries : List (Text × Json)}

/-! ## Settings as they are used -/

theorem value_updated (s : Settings) (stated : StatedSettings) (key : Key) :
    (s.updated stated).value key = (stated.value? key).getD (s.value key) := by
  cases key with
  | extensions => exact (Option.getD_map Json.ofTexts _ _).symm
  | excluded => exact (Option.getD_map Json.ofTexts _ _).symm
  | followsIgnoreFiles => exact (Option.getD_map Json.bool _ _).symm
  | maxKilobytes => exact (Option.getD_map limitValue _ _).symm
  | maxFiles => exact (Option.getD_map limitValue _ _).symm
  | mode => exact (Option.getD_map StatedSettings.modeJson _ _).symm
  | limit => exact (Option.getD_map StatedSettings.offerLimitJson _ _).symm
  | theme => exact (Option.getD_map Json.string _ _).symm

theorem value?_stated (s : Settings) (key : Key) : s.stated.value? key = some (s.value key) := by
  cases key <;> rfl

theorem accepts_default (key : Key) : key.Accepts (({} : Settings).value key) := by
  cases key with
  | extensions => exact ⟨_, rfl⟩
  | excluded => exact ⟨_, rfl⟩
  | followsIgnoreFiles => exact ⟨_, rfl⟩
  | maxKilobytes => exact .inl rfl
  | maxFiles => exact .inl rfl
  | mode => exact .inl rfl
  | limit => exact .inl rfl
  | theme => exact ⟨_, rfl⟩

/-- The value of a setting for which the file has the entry: the value there if the setting can have it, and the
default otherwise. -/
inductive Chosen (key : Key) : Option Json → Json → Prop
  | ofEntry {v : Json} (h : key.Accepts v) : Chosen key (some v) v
  | ofDefault {o : Option Json} (h : ∀ v, o = some v → ¬ key.Accepts v) : Chosen key o (({} : Settings).value key)

theorem Chosen.accepts {o : Option Json} (h : Chosen key o v) : key.Accepts v := by
  cases h with
  | ofEntry h => exact h
  | ofDefault _ => exact accepts_default key

theorem Chosen.eq {o : Option Json} (hv : Chosen key o v) (hw : Chosen key o w) : v = w := by
  cases hv with
  | ofEntry hv =>
    cases hw with
    | ofEntry _ => rfl
    | ofDefault hw => exact absurd hv (hw _ rfl)
  | ofDefault hv =>
    cases hw with
    | ofEntry hw => exact absurd hw (hv _ rfl)
    | ofDefault _ => rfl

theorem chosen_updated (h : StatedSettings.ofJson (.object entries) = .ok stated) (hheld : Json.HoldsNumbers entries)
    (key : Key) : Chosen key (Json.lookup? key.name entries) ((({} : Settings).updated stated).value key) := by
  have hstated {v : Json} : stated.value? key = some v ↔ Json.lookup? key.name entries = some v ∧ key.Accepts v :=
    StatedSettings.value?_of_ofJson h fun n hn => hheld key.name n (Json.mem_of_lookup? hn)
  rw [value_updated]
  cases hv : stated.value? key with
  | some v =>
    obtain ⟨hentry, haccepts⟩ := hstated.mp hv
    rw [hentry]
    exact .ofEntry haccepts
  | none =>
    refine .ofDefault fun v hentry haccepts => ?_
    rw [hstated.mpr ⟨hentry, haccepts⟩] at hv
    cases hv

/-- A file that cannot be read, or whose content is no object. -/
def Unusable {ε : Type} : Except ε (Option Text) → Prop
  | .error _ => True
  | .ok none => False
  | .ok (some content) => ∀ entries, Json.ofText? content ≠ some (.object entries)

theorem ofText_of_ofText? (h : Json.ofText? content = some (.object entries)) :
    ∃ stated, StatedSettings.ofText content = .ok stated ∧ StatedSettings.ofJson (.object entries) = .ok stated := by
  refine ⟨_, ?_, rfl⟩
  unfold StatedSettings.ofText
  rw [h]
  rfl

theorem ofText_eq_error (h : ∀ entries, Json.ofText? content ≠ some (.object entries)) :
    ∃ e, StatedSettings.ofText content = .error e := by
  unfold StatedSettings.ofText
  cases hvalue : Json.ofText? content with
  | none => exact ⟨_, rfl⟩
  | some v =>
    cases v with
    | object entries => exact absurd hvalue (h entries)
    | _ => exact ⟨_, rfl⟩

section Load

variable {ε : Type} {reading : Except ε (Option Text)}

theorem load_of_unusable (path : Text) (h : Unusable reading) : load path reading = ({}, [.settingsUnread path]) := by
  match reading, h with
  | .error _, _ => rfl
  | .ok (some content), h =>
    obtain ⟨e, he⟩ := ofText_eq_error h
    unfold load
    dsimp only
    rw [he]

theorem load_of_object (path : Text) (h : Json.ofText? content = some (.object entries)) :
    ∃ stated, StatedSettings.ofJson (.object entries) = .ok stated ∧
      load path (.ok (some content) : Except ε (Option Text)) = (({} : Settings).updated stated, []) := by
  obtain ⟨stated, hstated, hobject⟩ := ofText_of_ofText? h
  refine ⟨stated, hobject, ?_⟩
  unfold load
  dsimp only
  rw [hstated]

theorem chosen_load (path : Text) (h : Json.ofText? content = some (.object entries)) :
    (load path (.ok (some content) : Except ε (Option Text))).2 = [] ∧ ∀ key : Key, Chosen key
      (Json.lookup? key.name entries) ((load path (.ok (some content) : Except ε (Option Text))).1.value key) := by
  obtain ⟨stated, hstated, hload⟩ := load_of_object (ε := ε) path h
  rw [hload]
  exact ⟨rfl, chosen_updated hstated (Json.holdsNumbers_of_ofText? h)⟩

/-- A file that is there and of use holds an object. -/
theorem of_not_unusable (h : ¬ Unusable reading) : reading = .ok none ∨
    ∃ content entries, reading = .ok (some content) ∧ Json.ofText? content = some (.object entries) := by
  match reading, h with
  | .error _, h => exact absurd trivial h
  | .ok none, _ => exact .inl rfl
  | .ok (some content), h =>
    unfold Unusable at h
    push Not at h
    obtain ⟨entries, hentries⟩ := h
    exact .inr ⟨content, entries, rfl, hentries⟩

theorem accepts_load (path : Text) (reading : Except ε (Option Text)) (key : Key) :
    key.Accepts ((load path reading).1.value key) := by
  by_cases h : Unusable reading
  · rw [load_of_unusable path h]
    exact accepts_default key
  · obtain rfl | ⟨content, entries, rfl, hobject⟩ := of_not_unusable h
    · exact accepts_default key
    · exact ((chosen_load path hobject).2 key).accepts

theorem warns_iff_unusable (path : Text) (reading : Except ε (Option Text)) :
    (load path reading).2 ≠ [] ↔ Unusable reading := by
  by_cases h : Unusable reading
  · rw [load_of_unusable path h]
    exact iff_of_true (List.cons_ne_nil _ _) h
  · refine iff_of_false (not_not_intro ?_) h
    obtain rfl | ⟨content, entries, rfl, hobject⟩ := of_not_unusable h
    · rfl
    · exact (chosen_load path hobject).1

end Load

/-- Whatever the file is, each setting has a value that it can have. A file that is missing gives the defaults, and
so does, with a warning, one that cannot be read or holds no object. Otherwise each setting has the value of its own
entry or its default, whatever the other entries are. What has been read from an object is read again as it is, and so
are all settings that are valid. -/
theorem load_law {ε : Type} (path : Text) (reading : Except ε (Option Text)) :
    (∀ key : Key, key.Accepts ((load path reading).1.value key)) ∧
    ((load path reading).2 ≠ [] ↔ Unusable reading) ∧
    (Unusable reading → load path reading = ({}, [.settingsUnread path])) ∧
    (reading = .ok none → load path reading = ({}, [])) ∧
    (∀ content entries, reading = .ok (some content) → Json.ofText? content = some (.object entries) → ∀ key : Key,
      Chosen key (Json.lookup? key.name entries) ((load path reading).1.value key) ∧
      ∀ content' entries', Json.ofText? content' = some (.object entries') →
        Json.lookup? key.name entries' = Json.lookup? key.name entries →
        (load path (.ok (some content') : Except ε (Option Text))).1.value key = (load path reading).1.value key) ∧
    (∀ (key : Key) (other : Text), other ≠ key.name → ∀ v entries,
      Json.lookup? key.name (Json.put other v entries) = Json.lookup? key.name entries ∧
      Json.lookup? key.name (entries.filter fun entry => decide (entry.1 ≠ other)) = Json.lookup? key.name entries) ∧
    (∀ content entries, Json.ofText? content = some (.object entries) → Json.HoldsNumbers entries) ∧
    (∀ entries, Json.HoldsNumbers entries → ∃ stated, StatedSettings.ofJson (.object entries) = .ok stated ∧
      StatedSettings.ofJson stated.toJson = .ok stated) ∧
    (∀ s : Settings, (∀ key : Key, key.Accepts (s.value key)) → ∃ entries, s.stated.toJson = .object entries ∧
      (∀ key : Key, Json.lookup? key.name entries = some (s.value key)) ∧
      StatedSettings.ofJson (.object entries) = .ok s.stated) := by
  refine ⟨accepts_load path reading, warns_iff_unusable path reading, load_of_unusable path, ?_, ?_, ?_,
    fun _ _ => Json.holdsNumbers_of_ofText?, ?_, ?_⟩
  · rintro rfl
    rfl
  · rintro content entries rfl hobject key
    have hchosen := (chosen_load (ε := ε) path hobject).2 key
    refine ⟨hchosen, fun content' entries' hobject' hsame => ?_⟩
    -- what is chosen is known by the entry alone, which is the same in both files
    have hchosen' := (chosen_load (ε := ε) path hobject').2 key
    rw [hsame] at hchosen'
    exact hchosen'.eq hchosen
  · intro key other hne v entries
    exact ⟨Json.lookup?_put_of_ne hne v entries, Json.lookup?_filter_of_ne hne entries⟩
  · intro entries hheld
    have hvalid := StatedSettings.isValid_of_ofJson rfl hheld
    exact ⟨_, rfl, StatedSettings.ofJson_toJson hvalid⟩
  · intro s haccepts
    have hvalid : s.stated.IsValid := by
      intro key v hv
      rw [value?_stated] at hv
      rw [← Option.some.inj hv]
      exact haccepts key
    refine ⟨_, StatedSettings.toJson_eq hvalid, fun key => ?_, ?_⟩
    · rw [StatedSettings.lookup?_written, value?_stated]
    · rw [← StatedSettings.toJson_eq hvalid]
      exact StatedSettings.ofJson_toJson hvalid

/-- The text `{"maxFiles":[],"matchMode":"prefix"}`. -/
def sample : Text := "\x7b\"maxFiles\":[],\"matchMode\":\"prefix\"\x7d"

theorem ofText?_sample :
    Json.ofText? sample = some (.object [("maxFiles", .array []), ("matchMode", .string "prefix")]) := by
  cbv

/-- The mode is taken from the text, and what it has for the number of files is not. -/
theorem load_law_sample :
    let settings := (load ".c-complete.json" (.ok (some sample) : Except Unit (Option Text))).1
    settings.value .mode = .string "prefix" ∧ settings.value .maxFiles = .null := by
  intro settings
  have hmode : Json.lookup? Key.mode.name [("maxFiles", .array []), ("matchMode", .string "prefix")] =
      some (.string "prefix") := by cbv
  have hfiles : Json.lookup? Key.maxFiles.name [("maxFiles", .array []), ("matchMode", .string "prefix")] =
      some (.array []) := by cbv
  have hchosen (key : Key) := ((load_law ".c-complete.json"
    (.ok (some sample) : Except Unit (Option Text))).2.2.2.2.1 sample _ rfl ofText?_sample key).1
  constructor
  · have h := hchosen .mode
    rw [hmode] at h
    exact h.eq (.ofEntry (.inr rfl))
  · have h := hchosen .maxFiles
    rw [hfiles] at h
    refine h.eq (.ofDefault ?_)
    -- a list is no limit
    rintro v hv (rfl | ⟨n, -, -, rfl⟩)
    · cases hv
    · cases hv

end Settings

end CCompletion
