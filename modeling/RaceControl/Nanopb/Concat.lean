import RaceControl.Nanopb.Wire

namespace RaceControl.Nanopb

open Leb128

section Stable

/-- A successful read does not depend on what follows the bytes it takes. -/
def Stable {α : Type} (read : IStream → Read α) : Prop :=
  ∀ stream a rest more, read stream = .ok (a, rest) → read (stream ++ more) = .ok (a, rest ++ more)

def StableDecode {α : Type} (decode : IStream → Decoded α) : Prop :=
  ∀ stream a rest more, decode stream = .ok a rest → decode (stream ++ more) = .ok a (rest ++ more)

theorem Stable.map {α β : Type} {read : IStream → Read α} (h : Stable read) (f : α → β) :
    Stable (fun stream => (read stream).map (fun r => (f r.1, r.2))) := by
  intro stream b rest more hr
  cases hd : read stream with
  | error e => simp [hd, Except.map] at hr
  | ok r =>
      simp only [hd, Except.map, Except.ok.injEq, Prod.mk.injEq] at hr
      obtain ⟨rfl, rfl⟩ := hr
      simp only [h stream r.1 r.2 more hd, Except.map]

theorem pbRead_stable (count : Nat) : Stable (pbRead count) := by
  intro stream a rest more h
  rw [pbRead] at h ⊢
  split at h
  · cases h
  · rename_i hle
    cases h
    rw [if_neg (by rw [List.length_append]; omega), List.take_append_of_le_length (by omega),
      List.drop_append_of_le_length (by omega)]

theorem pbDecodeVarint_stable : Stable pbDecodeVarint := by
  intro stream w rest more h
  rw [pbDecodeVarint_ok] at h ⊢
  exact ⟨decode_append h.1 more, by rw [List.length_append, List.length_append]; omega⟩

theorem varint32Loop_stable (bitpos : Nat) (result : UInt32) : Stable (varint32Loop bitpos result) := by
  intro stream v rest more h
  induction stream generalizing bitpos result with
  | nil => cases h
  | cons byte stream ih =>
      rw [varint32Loop] at h
      rw [List.cons_append, varint32Loop]
      cases hb : varint32Byte bitpos result byte with
      | error e =>
          rw [hb] at h
          cases h
      | ok next =>
          rw [hb] at h
          dsimp only at h ⊢
          split at h
          · rename_i hc
            rw [if_pos hc]
            exact ih _ _ h
          · rename_i hc
            cases h
            rw [if_neg hc]

theorem pbDecodeVarint32_stable : Stable pbDecodeVarint32 := by
  intro stream v rest more h
  rw [pbDecodeVarint32_eq] at h ⊢
  exact varint32Loop_stable _ _ stream v rest more h

theorem pbSkipVarint_stable : Stable pbSkipVarint := by
  intro stream a rest more h
  rw [pbSkipVarint_eq] at h ⊢
  cases hd : decode stream with
  | none =>
      rw [hd] at h
      cases h
  | some r =>
      rw [hd] at h
      cases h
      rw [decode_append hd more]

theorem pbSkipString_stable : Stable pbSkipString := by
  intro stream a rest more h
  rw [pbSkipString] at h ⊢
  cases hd : pbDecodeVarint32 stream with
  | error e =>
      rw [hd] at h
      cases h
  | ok r =>
      rw [hd] at h
      rw [pbDecodeVarint32_stable stream r.1 r.2 more hd]
      exact (pbRead_stable r.1.toNat).map (fun _ => ()) r.2 a rest more h

theorem pbSkipField_stable (wireType : UInt32) : Stable (pbSkipField wireType) := by
  intro stream a rest more h
  rw [pbSkipField] at h ⊢
  split at h
  · rename_i hv
    rw [if_pos hv]
    exact pbSkipVarint_stable stream a rest more h
  · rename_i hv
    rw [if_neg hv]
    split at h
    · rename_i h64
      rw [if_pos h64]
      exact (pbRead_stable 8).map (fun _ => ()) stream a rest more h
    · rename_i h64
      rw [if_neg h64]
      split at h
      · rename_i hs
        rw [if_pos hs]
        exact pbSkipString_stable stream a rest more h
      · rename_i hs
        rw [if_neg hs]
        split at h
        · rename_i h32
          rw [if_pos h32]
          exact (pbRead_stable 4).map (fun _ => ()) stream a rest more h
        · cases h

theorem pbDecodeTag_stable : Stable pbDecodeTag := by
  intro stream a rest more h
  rw [pbDecodeTag] at h ⊢
  cases hd : pbDecodeVarint32 stream with
  | error e =>
      rw [hd] at h
      cases h
  | ok r =>
      rw [hd] at h
      cases h
      rw [pbDecodeVarint32_stable stream r.1 r.2 more hd]

theorem pbMakeStringSubstream_stable : Stable pbMakeStringSubstream := by
  intro stream a rest more h
  rw [pbMakeStringSubstream] at h ⊢
  cases hd : pbDecodeVarint32 stream with
  | error e =>
      rw [hd] at h
      cases h
  | ok r =>
      rw [hd] at h
      rw [pbDecodeVarint32_stable stream r.1 r.2 more hd]
      dsimp only at h ⊢
      split at h
      · cases h
      · rename_i hle
        cases h
        rw [if_neg (by rw [List.length_append]; omega), List.take_append_of_le_length (by omega),
          List.drop_append_of_le_length (by omega)]

theorem StableDecode.ofRead {α β : Type} {read : IStream → Read α} (h : Stable read) (store : α → β) (dest : β) :
    StableDecode (fun stream => Decoded.ofRead (read stream) store dest) := by
  intro stream b rest more hr
  cases hd : read stream with
  | error e => simp [Decoded.ofRead, hd] at hr
  | ok r =>
      simp only [Decoded.ofRead, hd, Decoded.ok.injEq] at hr
      obtain ⟨rfl, rfl⟩ := hr
      simp only [Decoded.ofRead, h stream r.1 r.2 more hd]

theorem StableDecode.map {α β : Type} {decode : IStream → Decoded α} (h : StableDecode decode) (f : α → β) :
    StableDecode (fun stream => (decode stream).map f) := by
  intro stream b rest more hr
  cases hd : decode stream with
  | fail e dest => simp [hd, Decoded.map] at hr
  | ok a rest' =>
      simp only [hd, Decoded.map, Decoded.ok.injEq] at hr
      obtain ⟨rfl, rfl⟩ := hr
      simp only [h stream a rest' more hd, Decoded.map]

theorem decodeScalar_stable (t : Scalar) (dest : t.Value) : StableDecode (decodeScalar t dest) := by
  cases t with
  | bool => exact .ofRead pbDecodeVarint32_stable _ _
  | int32 | int64 => exact .ofRead pbDecodeVarint_stable _ _
  | uenum =>
      intro stream a rest more h
      simp only [decodeScalar, pbDecUvarint] at h ⊢
      cases hd : pbDecodeVarint stream with
      | error e =>
          rw [hd] at h
          cases h
      | ok r =>
          rw [hd] at h
          rw [pbDecodeVarint_stable stream r.1 r.2 more hd]
          dsimp only at h ⊢
          split at h
          · cases h
          · rename_i hc
            cases h
            rw [if_neg hc]
            rfl
  | float => exact .ofRead ((pbRead_stable 4).map fun bytes => UInt32.ofNat (littleEndian bytes)) _ _
  | double => exact .ofRead ((pbRead_stable 8).map fun bytes => UInt64.ofNat (littleEndian bytes)) _ _

theorem pbDecSubmessage_stable {σ : Type} (fields : List (PbField σ)) (dest : σ) :
    StableDecode (pbDecSubmessage fields dest) := by
  intro stream a rest more h
  rw [pbDecSubmessage] at h ⊢
  cases hd : pbMakeStringSubstream stream with
  | error e =>
      rw [hd] at h
      cases h
  | ok r =>
      rw [hd] at h
      rw [pbMakeStringSubstream_stable stream r.1 r.2 more hd]
      dsimp only at h ⊢
      cases hs : pbDecodeInner fields dest r.1 with
      | fail e dest' =>
          rw [hs] at h
          cases h
      | ok dest' rest' =>
          rw [hs] at h
          cases h
          rfl

end Stable

section Loop

variable {σ τ : Type} {fields : List (PbField σ)}

/-- One pass of the loop, without a bound on the passes. -/
theorem pbDecodeInner_cons (fields : List (PbField σ)) (dest : σ) (byte : UInt8) (rest : IStream) :
    pbDecodeInner fields dest (byte :: rest) =
      match pbDecodeTag (byte :: rest) with
      | .error e => .fail e dest
      | .ok (⟨wireType, tag⟩, stream) =>
          if tag = 0 then .fail .zeroTag dest
          else match fields.find? (fun field => field.tag == tag) with
            | none => match pbSkipField wireType stream with
                | .error e => .fail e dest
                | .ok (_, stream) => pbDecodeInner fields dest stream
            | some field => match field.decode wireType dest stream with
                | .fail e dest => .fail e dest
                | .ok dest stream => pbDecodeInner fields dest stream := by
  rw [pbDecodeInner, List.length_cons, decodeFields]
  cases ht : pbDecodeTag (byte :: rest) with
  | error e => rfl
  | ok r =>
      obtain ⟨⟨wireType, tag⟩, stream⟩ := r
      have hl := pbDecodeTag_consumes _ _ _ ht
      rw [List.length_cons] at hl
      dsimp only
      split
      · rfl
      · cases hf : fields.find? (fun field => field.tag == tag) with
        | none =>
            dsimp only
            cases hs : pbSkipField wireType stream with
            | error e => rfl
            | ok skipped =>
                have hr := pbSkipField_consumes _ _ _ _ hs
                exact decodeFields_passes fields rest.length dest skipped.2 (by omega)
        | some field =>
            have hw := field.within wireType dest stream
            dsimp only
            cases hd : field.decode wireType dest stream with
            | fail e dest' => rfl
            | ok dest' rest' =>
                rw [hd] at hw
                have hr : rest'.length ≤ stream.length := hw
                exact decodeFields_passes fields rest.length dest' rest' (by omega)

/-- The passes of the loop up to the end of the stream, none of which fails. -/
inductive Parses (fields : List (PbField σ)) : σ → IStream → σ → Prop
  | done (dest : σ) : Parses fields dest [] dest
  | skip {dest dest' : σ} {stream body rest : IStream} {wireType tag : UInt32}
      (htag : pbDecodeTag stream = .ok (⟨wireType, tag⟩, body)) (hzero : tag ≠ 0)
      (hfind : fields.find? (fun field => field.tag == tag) = none)
      (hskip : pbSkipField wireType body = .ok ((), rest)) (hrest : Parses fields dest rest dest') :
      Parses fields dest stream dest'
  | field {dest next dest' : σ} {stream body rest : IStream} {wireType tag : UInt32} {field : PbField σ}
      (htag : pbDecodeTag stream = .ok (⟨wireType, tag⟩, body)) (hzero : tag ≠ 0)
      (hfind : fields.find? (fun field => field.tag == tag) = some field)
      (hdecode : field.decode wireType dest body = .ok next rest) (hrest : Parses fields next rest dest') :
      Parses fields dest stream dest'

theorem pbDecodeTag_nil (r : Tag × IStream) : pbDecodeTag [] ≠ .ok r := by
  intro h
  cases h

theorem pbDecodeInner_skip {stream body rest : IStream} {wireType tag : UInt32}
    (htag : pbDecodeTag stream = .ok (⟨wireType, tag⟩, body)) (hzero : tag ≠ 0)
    (hfind : fields.find? (fun field => field.tag == tag) = none)
    (hskip : pbSkipField wireType body = .ok ((), rest)) (dest : σ) :
    pbDecodeInner fields dest stream = pbDecodeInner fields dest rest := by
  cases stream with
  | nil => exact absurd htag (pbDecodeTag_nil _)
  | cons byte stream =>
      rw [pbDecodeInner_cons, htag]
      dsimp only
      rw [if_neg hzero, hfind]
      dsimp only
      rw [hskip]

theorem pbDecodeInner_field {stream body : IStream} {wireType tag : UInt32} {field : PbField σ}
    (htag : pbDecodeTag stream = .ok (⟨wireType, tag⟩, body)) (hzero : tag ≠ 0)
    (hfind : fields.find? (fun field => field.tag == tag) = some field) (dest : σ) :
    pbDecodeInner fields dest stream =
      match field.decode wireType dest body with
      | .fail e dest => .fail e dest
      | .ok dest rest => pbDecodeInner fields dest rest := by
  cases stream with
  | nil => exact absurd htag (pbDecodeTag_nil _)
  | cons byte stream =>
      rw [pbDecodeInner_cons, htag]
      dsimp only
      rw [if_neg hzero, hfind]

theorem Parses.decodes {dest dest' : σ} {stream : IStream} (h : Parses fields dest stream dest') :
    pbDecodeInner fields dest stream = .ok dest' [] := by
  induction h with
  | done dest => rfl
  | skip htag hzero hfind hskip _ ih => rw [pbDecodeInner_skip htag hzero hfind hskip, ih]
  | field htag hzero hfind hdecode _ ih =>
      rw [pbDecodeInner_field htag hzero hfind, hdecode]
      exact ih

/-- The loop succeeds at the end of the stream only. -/
theorem pbDecodeInner_parses {dest dest' : σ} {stream rest : IStream}
    (h : pbDecodeInner fields dest stream = .ok dest' rest) : rest = [] ∧ Parses fields dest stream dest' := by
  induction hn : stream.length using Nat.strongRecOn generalizing dest stream with
  | ind n ih =>
      cases stream with
      | nil =>
          cases h
          exact ⟨rfl, .done _⟩
      | cons byte stream =>
          subst hn
          rw [pbDecodeInner_cons] at h
          cases htag : pbDecodeTag (byte :: stream) with
          | error e =>
              rw [htag] at h
              cases h
          | ok r =>
              obtain ⟨⟨wireType, tag⟩, body⟩ := r
              have hbody := pbDecodeTag_consumes _ _ _ htag
              rw [htag] at h
              dsimp only at h
              by_cases hzero : tag = 0
              · rw [if_pos hzero] at h
                cases h
              · rw [if_neg hzero] at h
                cases hfind : fields.find? (fun field => field.tag == tag) with
                | none =>
                    rw [hfind] at h
                    cases hskip : pbSkipField wireType body with
                    | error e =>
                        rw [hskip] at h
                        cases h
                    | ok skipped =>
                        rw [hskip] at h
                        have hl := pbSkipField_consumes _ _ _ _ hskip
                        obtain ⟨hend, hrest⟩ := ih _ (by omega) h rfl
                        exact ⟨hend, .skip htag hzero hfind hskip hrest⟩
                | some field =>
                    rw [hfind] at h
                    dsimp only at h
                    have hw := field.within wireType dest body
                    cases hdecode : field.decode wireType dest body with
                    | fail e dest' =>
                        rw [hdecode] at h
                        cases h
                    | ok next left =>
                        rw [hdecode] at h hw
                        have hl : left.length ≤ body.length := hw
                        obtain ⟨hend, hrest⟩ := ih _ (by omega) h rfl
                        exact ⟨hend, .field htag hzero hfind hdecode hrest⟩

def FieldsStable (fields : List (PbField σ)) : Prop :=
  ∀ field ∈ fields, ∀ wireType dest, StableDecode (field.decode wireType dest)

/-- Decoding two messages in a row is decoding one after the other into the same
struct. -/
theorem Parses.append (hstable : FieldsStable fields) {dest dest' : σ} {stream : IStream}
    (h : Parses fields dest stream dest') (more : IStream) :
    pbDecodeInner fields dest (stream ++ more) = pbDecodeInner fields dest' more := by
  induction h with
  | done dest => rfl
  | skip htag hzero hfind hskip _ ih =>
      rw [pbDecodeInner_skip (pbDecodeTag_stable _ _ _ more htag) hzero hfind
        (pbSkipField_stable _ _ _ _ more hskip), ih]
  | field htag hzero hfind hdecode _ ih =>
      rw [pbDecodeInner_field (pbDecodeTag_stable _ _ _ more htag) hzero hfind,
        hstable _ (List.mem_of_find?_eq_some hfind) _ _ _ _ _ more hdecode]
      exact ih

def Keeps (P : σ → Prop) (field : PbField σ) : Prop :=
  ∀ wireType dest stream next rest, P dest → field.decode wireType dest stream = .ok next rest → P next

/-- What every field keeps, the loop keeps. -/
theorem Parses.preserves {P : σ → Prop} (hfield : ∀ field ∈ fields, Keeps P field) {dest dest' : σ}
    {stream : IStream} (h : Parses fields dest stream dest') (hp : P dest) : P dest' := by
  induction h with
  | done dest => exact hp
  | skip _ _ _ _ _ ih => exact ih hp
  | field _ _ hfind hdecode _ ih =>
      exact ih (hfield _ (List.mem_of_find?_eq_some hfind) _ _ _ _ _ hp hdecode)

end Loop

section Kinds

variable {σ τ : Type}

theorem singular_stable (tag : UInt32) (t : Scalar) (get : σ → t.Value) (set : t.Value → σ → σ)
    (wireType : UInt32) (dest : σ) : StableDecode ((singular tag t get set).decode wireType dest) := by
  intro stream a rest more h
  simp only [singular] at h ⊢
  split at h
  · cases h
  · rename_i hw
    rw [if_neg hw]
    exact (decodeScalar_stable t (get dest)).map _ stream a rest more h

theorem optional_stable (tag : UInt32) (fields : List (PbField τ)) (has : σ → Bool) (setHas : Bool → σ → σ)
    (get : σ → τ) (set : τ → σ → σ) (wireType : UInt32) (dest : σ) :
    StableDecode ((optional tag fields has setHas get set).decode wireType dest) := by
  intro stream a rest more h
  simp only [optional] at h ⊢
  split at h
  · cases h
  · rename_i hw
    rw [if_neg hw]
    exact (pbDecSubmessage_stable fields (get dest)).map _ stream a rest more h

theorem oneof_stable (tag : UInt32) (fields : List (PbField τ)) (zero : τ) (clear : σ → σ)
    (select : σ → Option τ) (store : τ → σ → σ) (wireType : UInt32) (dest : σ) :
    StableDecode ((oneof tag fields zero clear select store).decode wireType dest) := by
  intro stream a rest more h
  simp only [oneof] at h ⊢
  split at h
  · cases h
  · rename_i hw
    rw [if_neg hw]
    exact (pbDecSubmessage_stable fields _).map _ stream a rest more h

theorem map_ok {α β : Type} {f : α → β} {d : Decoded α} {b : β} {rest : IStream} (h : d.map f = .ok b rest) :
    ∃ a, d = .ok a rest ∧ b = f a := by
  cases d with
  | fail e dest => cases h
  | ok a rest' =>
      cases h
      exact ⟨a, rfl, rfl⟩

theorem singular_keeps {P : σ → Prop} (tag : UInt32) {t : Scalar} (get : σ → t.Value) {set : t.Value → σ → σ}
    (hset : ∀ value dest, P dest → P (set value dest)) : Keeps P (singular tag t get set) := by
  intro wireType dest stream next rest hp h
  simp only [singular] at h
  split at h
  · cases h
  · obtain ⟨value, -, rfl⟩ := map_ok h
    exact hset value dest hp

theorem pbDecSubmessage_keeps {Q : τ → Prop} {fields : List (PbField τ)} (hfields : ∀ field ∈ fields, Keeps Q field)
    {dest next : τ} {stream rest : IStream} (h : pbDecSubmessage fields dest stream = .ok next rest)
    (hq : Q dest) : Q next := by
  rw [pbDecSubmessage] at h
  cases hs : pbMakeStringSubstream stream with
  | error e =>
      rw [hs] at h
      cases h
  | ok r =>
      rw [hs] at h
      dsimp only at h
      cases hd : pbDecodeInner fields dest r.1 with
      | fail e dest' =>
          rw [hd] at h
          cases h
      | ok dest' rest' =>
          rw [hd] at h
          cases h
          exact (pbDecodeInner_parses hd).2.preserves hfields hq

theorem optional_keeps {P : σ → Prop} (tag : UInt32) (fields : List (PbField τ)) (has : σ → Bool)
    {setHas : Bool → σ → σ} (get : σ → τ) {set : τ → σ → σ}
    (hset : ∀ sub dest, P dest → P (set sub (setHas true dest))) :
    Keeps P (optional tag fields has setHas get set) := by
  intro wireType dest stream next rest hp h
  simp only [optional] at h
  split at h
  · cases h
  · obtain ⟨sub, -, rfl⟩ := map_ok h
    exact hset sub dest hp

theorem oneof_keeps {P : σ → Prop} {Q : τ → Prop} (tag : UInt32) {fields : List (PbField τ)}
    (hfields : ∀ field ∈ fields, Keeps Q field) {zero : τ} (hzero : Q zero) (clear : σ → σ) {select : σ → Option τ}
    (hselect : ∀ dest sub, P dest → select dest = some sub → Q sub) {store : τ → σ → σ}
    (hstore : ∀ sub dest, P dest → Q sub → P (store sub dest)) :
    Keeps P (oneof tag fields zero clear select store) := by
  intro wireType dest stream next rest hp h
  simp only [oneof] at h
  split at h
  · cases h
  · obtain ⟨sub, hd, rfl⟩ := map_ok h
    refine hstore sub dest hp (pbDecSubmessage_keeps hfields hd ?_)
    cases hs : select dest with
    | none => exact hzero
    | some sub' => exact hselect dest sub' hp hs

end Kinds

end RaceControl.Nanopb
