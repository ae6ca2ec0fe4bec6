import DebugLink.Proofs.Chip.Areas
import DebugLink.Proofs.Chip.Delivery

/-!
# Programming flash from the start

The loader goes into a working area, a ring into another one, the data through the ring, and both
areas are given back.  Whoever the host is and whatever flash holds, a SUCCESS MEANS that the data
is in flash (`flashWrite_programs`), or rather all halfwords of it.  The loader is told how many
halfwords there are, so a last byte that is not half of one is handed over, counted, and left in
the ring (`Flashed.last`).

* Until streaming begins the chip is only looked at, and written to in RAM.  Where the two areas
  lie is known from the areas alone (`area_inRam`, `area_apart`).
* Of streaming itself only the success counts: nothing is assumed of the host, so the final wait
  may come to any end (`calm_any`).
* Behind the stream everything that happens leaves flash as it is (`yields_wrapUp`).

The other way round, what flash allows for is programmed from new areas (`flashWrite_takes`), so
there are successes to speak of.
-/

namespace DebugLink

open Environment Areas

namespace Demo

variable {A : Arch} {W α : Type} {env : Environment A W} {I : W → Prop} {dev : Device A} {w : W}

/-- A step that only needs the link, and leaves the device as it is. -/
theorem wp_onLink {z : Link A α} {Q : Except Failure α × Device A → W → Prop}
    (hz : env.wp I z.run (fun r w => match r with
      | .ok a => Q (.ok a, dev) w
      | .error e => Q (.error (.link e), dev) w) w) :
    env.wp I ((onLink z).run.run dev) Q w := by
  rw [onLink]
  refine wp_seq (wp_liftDialogue (wp_mono hz ?_))
  rintro (e | a) w hw
  · exact hw
  · exact hw

/-- A step on the working areas. -/
theorem wp_onAreas {z : AreaM A α} {Q : Except Failure α × Device A → W → Prop}
    (hz : env.wp I (z.run.run dev.areas) (fun r w => match r.1 with
      | .ok a => Q (.ok a, { dev with areas := r.2 }) w
      | .error e => Q (.error (.link e), { dev with areas := r.2 }) w) w) :
    env.wp I ((onAreas z).run.run dev) Q w := by
  rw [onAreas]
  refine wp_get (wp_seq (wp_liftDialogue (wp_mono hz ?_)))
  rintro ⟨e | a, s⟩ w hw
  · exact hw
  · exact hw

end Demo

namespace Chip

open Demo

variable {η : Type} {h : Host η} {calm : Prop} {x : Chip} {y : η} {j : Job}

/-- How streaming ends: with everything that the loader counts in flash, or with a failure, which
    is due to flash unless something else came in between. -/
def Streamed (j : Job) (calm : Prop) (dev : Device cortexM)
    (res : Except Failure (Stats × Word) × Device cortexM) (v : Chip × η) : Prop :=
  res.2.areas = dev.areas ∧
  ((∃ stats, res.1 = .ok (stats, 0) ∧ stats.bytes = j.data.length ∧ j.Programmed v.1) ∨
    (∃ e, res.1 = .error e) ∧ (calm → j.room < j.total))

/-- Streaming hands the data to the loader, and reports what the transfer reports. -/
theorem yields_stream {code buffer : Area 32} {dev : Device cortexM}
    (hring : Ring.ofArea? buffer 2 = .ok j.ring) (hcode : code.address = j.code)
    (hbusy : dev.busy = false)
    (haccepted : calm → Runner.ofImage? (A := cortexM) j.image = .ok j.runner)
    (hwrite : Yields h ((j.engine.write (A := cortexM) Demo.patience j.data).run
      ⟨j.runner, false⟩) (j.WriteEnds calm) (x, y)) :
    Yields h ((stream code buffer j.dest j.data).run.run dev) (Streamed j calm dev) (x, y) := by
  have himage : loaderImage j.code j.ring j.dest (j.data.length / 2) = j.image := rfl
  rw [stream, hring, hcode]
  refine wp_pure ?_
  beta_reduce
  rw [himage]
  cases hrunner : Runner.ofImage? (A := cortexM) j.image with
  | error e =>
      refine ⟨rfl, .inr ⟨⟨_, rfl⟩, fun hcalm => ?_⟩⟩
      rw [haccepted hcalm] at hrunner
      cases hrunner
  | ok r =>
      obtain rfl := j.runner_unique hrunner
      refine wp_seq (wp_get (wp_seq (wp_liftDialogue ?_)))
      rw [hbusy]
      refine wp_mono hwrite ?_
      rintro ⟨ended, r, busy⟩ v hends
      refine wp_seq ?_
      rcases hends with ⟨stats, hres, hbytes, -, hr, hv⟩ | ⟨offset, hres, -, -, hv⟩ |
        ⟨hquits, hnot⟩
      · obtain rfl : ended = .finished stats := hres
        have hstatus : (r.image.regs.head?.map (·.value)).getD 0 = 0 := by rw [hr.status]; rfl
        refine ⟨rfl, .inl ⟨stats, ?_, hbytes, hv⟩⟩
        show Except.ok (stats, (r.image.regs.head?.map (·.value)).getD 0) = _
        rw [hstatus]
      · obtain rfl : ended = _ := hres
        exact ⟨rfl, .inr ⟨⟨_, rfl⟩, fun _ => hv.short⟩⟩
      · cases ended with
        | undecided => exact ⟨rfl, .inr ⟨⟨_, rfl⟩, fun hcalm => absurd hcalm hquits⟩⟩
        | failed e => exact ⟨rfl, .inr ⟨⟨_, rfl⟩, fun hcalm => absurd hcalm hquits⟩⟩
        | finished stats => exact absurd rfl (hnot stats)

/-- What is programmed: all halfwords of the data that there are, one after the other from `dest`
    on. -/
structure Flashed (before : Region) (dest : Word) (data : List UInt8) (x : Chip) : Prop where
  laid : x.store.Laid
  flash : x.store.flash = before.store dest.toNat (data.take (2 * (data.length / 2)))
  covers : 2 ≤ data.length → before.Covers dest.toNat (2 * (data.length / 2))

/-- The loader counts all of them, or it would have left the host waiting for room. -/
theorem Job.Programmed.flashed (hx : j.Programmed x) :
    Flashed j.before.flash j.dest j.data x := by
  have hmod : j.total = j.data.length / 2 % 2 ^ 32 := BitVec.toNat_ofNat ..
  have hdrained := hx.drained
  have hfits := hx.fits
  have hroom := j.room_le
  have hhigh := j.high
  have hram : ramBase + ramSize < 2 ^ 32 := by decide
  rw [Ring.fifoEnd] at hhigh
  have hcap : j.ring.capacity = j.ring.size - 8 := rfl
  have htotal : j.total = j.data.length / 2 := by omega
  refine ⟨hx.laid, htotal ▸ hx.flash, fun hlong => ?_⟩
  exact covers_dest (by omega) (by omega)

/-- A success with everything in flash, or no success. -/
def Told (before : Region) (dest : Word) (data : List UInt8)
    (res : Except Failure Stats × Device cortexM) (v : Chip × η) : Prop :=
  ∀ stats, res.1 = .ok stats → stats.bytes = data.length ∧ Flashed before dest data v.1

/-- What does not succeed has nothing to tell of. -/
theorem yields_told_of_fails {dev : Device cortexM} {before : Region} {dest : Word}
    {data : List UInt8} {z : DemoM cortexM Stats} {v : Chip × η}
    (hz : Gives (fun _ => False) z) : Yields h (z.run.run dev) (Told before dest data) v :=
  wp_mono (wp_of_within (hz dev) v) fun _ _ hr stats hok => (hr stats hok).elim

/-- They can be read from flash. -/
theorem Flashed.peek {before : Region} {dest : Word} {data : List UInt8}
    (hx : Flashed before dest data x) (hlong : 2 ≤ data.length) :
    x.peek? dest.toNat (2 * (data.length / 2)) = some (data.take (2 * (data.length / 2))) := by
  have hlen : (data.take (2 * (data.length / 2))).length = 2 * (data.length / 2) := by
    rw [List.length_take]
    omega
  have hload := Region.load?_store_self (r := before) (hlen.symm ▸ hx.covers hlong)
  rw [← hx.flash] at hload
  have hpeek : x.peek? dest.toNat (data.take (2 * (data.length / 2))).length =
      some (data.take (2 * (data.length / 2))) := by
    rw [peek?, Store.load?_flash hx.laid (Region.covers_of_load? hload), hload]
    rfl
  rwa [hlen] at hpeek

/-- Half a halfword stays as it was. -/
theorem Flashed.last {before : Region} {dest : Word} {data : List UInt8}
    (hx : Flashed before dest data x) (hodd : data.length % 2 = 1) :
    x.store.flash.load? (dest.toNat + (data.length - 1)) 1 =
      before.load? (dest.toNat + (data.length - 1)) 1 := by
  have heven : 2 * (data.length / 2) = data.length - 1 := by omega
  have hlen : (data.take (data.length - 1)).length = data.length - 1 := by
    rw [List.length_take]
    omega
  rw [hx.flash, heven]
  rcases Nat.eq_zero_or_pos (data.length - 1) with hone | hmore
  · rw [hone]
    rfl
  · have hc := hx.covers (by omega)
    rw [heven, ← hlen] at hc
    exact Region.load?_store_of_disjoint hc (.inr (by omega))

/-! ## Against any host -/

/-- A host of which nothing is known may do anything. -/
theorem calm_any : h.Calm False fun _ => True where
  keepAlive _ := trivial
  shutdownPending _ := trivial
  undisturbed := False.elim
  sleep _ _ _ _ := trivial

/-- A core that is not halted refuses. -/
theorem yields_begin_refused {r : Held cortexM} {e : Engine}
    {Q : Except Error Unit × Held cortexM → Chip × η → Prop} (hbusy : r.busy = false)
    (idle : x.control.state ≠ .running) (hnot : x.control.state ≠ .halted)
    (hn : ∀ err, Q (.error err, r) (x, y)) :
    Yields h ((e.begin (A := cortexM) .write).run.run r) Q (x, y) := by
  refine wp_get ?_
  show Yields h (StateT.run (ExceptT.run
    (if r.busy = true then _ else _ : RunM cortexM Unit)) r) _ _
  rw [hbusy]
  refine wp_seq (wp_lift (plays_ask play_poll ?_))
  rw [looked_idle idle]
  show Yields h (ExceptT.run (if x.control.state ≠ .halted then _ else _ : Link cortexM Unit)) _ _
  rw [if_pos hnot]
  exact plays_note (hn _)

/-- A transfer to the loader, whatever the host does: it programs the data, or fails. -/
theorem Staged.yields_write {buffer : Area 32} {ring : Ring} {code dest : Word} {data : List UInt8}
    (hx : Staged buffer ring code x) (idle : x.control.state ≠ .running) (patience : Nat) :
    Yields h (((hx.job dest data).engine.write (A := cortexM) (patience + 1) data).run
      ⟨(hx.job dest data).runner, false⟩) ((hx.job dest data).WriteEnds False) (x, y) := by
  by_cases hhalted : x.control.state = .halted
  · exact Job.yields_write calm_any False.elim
      (fun x' y' hx' _ => Job.yields_watch_any (by simp) _ _ _ hx') (hx.poised hhalted dest data)
      trivial
  · refine wp_then (yields_begin_refused rfl idle hhalted fun _ => .inr (.inr ⟨id, ?_⟩))
    exact fun _ h => by cases h

/-- Streaming, against any host. -/
theorem yields_stream_any {code buffer : Area 32} {dev : Device cortexM} {dest : Word}
    {data : List UInt8} (idle : x.control.state ≠ .running) (hbusy : dev.busy = false)
    (hx : ∀ ring, Ring.ofArea? buffer 2 = .ok ring → Staged buffer ring code.address x) :
    Yields h ((stream code buffer dest data).run.run dev) (fun res v => res.2.areas = dev.areas ∧
      ((∃ stats, res.1 = .ok (stats, 0) ∧ stats.bytes = data.length ∧
        Flashed x.store.flash dest data v.1 ∧ v.1.control.state = .halted) ∨
        ∃ e, res.1 = .error e)) (x, y) := by
  cases hring : Ring.ofArea? buffer 2 with
  | error e =>
      rw [stream, hring]
      exact ⟨rfl, .inr ⟨_, rfl⟩⟩
  | ok ring =>
      obtain ⟨patience, hpatience⟩ : ∃ p, Demo.patience = p + 1 := ⟨_, rfl⟩
      have hstaged := hx ring hring
      refine wp_mono (yields_stream (j := hstaged.job dest data) hring rfl hbusy False.elim
        (hpatience ▸ hstaged.yields_write idle patience)) ?_
      rintro res v ⟨hareas, ⟨stats, hres, hbytes, hv⟩ | ⟨hres, -⟩⟩
      · exact ⟨hareas, .inl ⟨stats, hres, hbytes, hv.flashed, hv.state⟩⟩
      · exact ⟨hareas, .inr hres⟩

/-! ## Behind the stream -/

/-- Both areas are given back, whatever streaming came to. -/
def wrapUp (code buffer : Area 32) (streamed : Except Failure (Stats × Word)) :
    DemoM cortexM Stats := do
  onAreas (A := cortexM) (Areas.free buffer)
  onAreas (A := cortexM) (Areas.free code)
  match streamed with
  | .error e => throw e
  | .ok (stats, status) =>
    if status &&& programmingError ≠ 0 then
      throw (.status status.toNat)
    return stats

/-- After a failure nothing that follows makes it a success. -/
theorem wrapUp_fails (code buffer : Area 32) (e : Failure) :
    Gives (fun _ => False) (wrapUp code buffer (.error e)) :=
  .last fun _ => .last fun _ => .throw e

/-- After a success the two areas are given back, and what was programmed stays. -/
theorem yields_wrapUp {code buffer : Area 32} {dev : Device cortexM} {live : List (Area 32)}
    {before : Region} {dest : Word} {data : List UInt8} {stats : Stats}
    (hareas : Settled (A := cortexM) dev.areas live false) (hbytes : stats.bytes = data.length)
    (hx : Flashed before dest data x) (idle : x.control.state ≠ .running) :
    Yields h ((wrapUp code buffer (.ok (stats, 0))).run.run dev) (Told before dest data)
      (x, y) := by
  have hspared : Spared x.store.flash x := ⟨hx.laid, idle, rfl⟩
  refine wp_seq (wp_onAreas (wp_mono ((releases x.store.flash).wp_freeRestore ⟨hareas, hspared⟩
    buffer) ?_))
  rintro ⟨e | _, s₁⟩ ⟨x₁, y₁⟩ ⟨hareas₁, hx₁⟩
  · exact nofun
  refine wp_seq (wp_onAreas (wp_mono ((releases x.store.flash).wp_freeRestore ⟨hareas₁, hx₁⟩
    code) ?_))
  rintro ⟨e | _, s₂⟩ ⟨x₂, y₂⟩ ⟨-, hx₂⟩
  · exact nofun
  intro stats' hok
  obtain rfl := Except.ok.inj hok
  exact ⟨hbytes, hx₂.laid, hx₂.flash.trans hx.flash, hx.covers⟩

/-- Against any host: a success programmed every whole halfword. -/
theorem yields_flashWrite {dev : Device cortexM} {dest : Word} {data : List UInt8}
    (laid : x.store.Laid) (idle : x.control.state ≠ .running)
    (hconfig : dev.areas.config = Demo.config) (hareas : Settled (A := cortexM) dev.areas [] false)
    (hbusy : dev.busy = false) :
    Yields h ((flashWrite dest data).run.run dev) (Told x.store.flash dest data) (x, y) := by
  rw [flashWrite]
  -- the code goes into an area of its own
  refine wp_seq (wp_onAreas (wp_mono (wp_and ((grants idle).wp_alloc ⟨rfl, hconfig, hareas⟩ _)
    (wp_of_within (alloc_gives (show roundUp? loaderStub.length = some 12 from rfl) _) _)) ?_))
  rintro ⟨e | code, s₁⟩ ⟨x₁, y₁⟩ ⟨⟨hx₁, hconfig₁, hareas₁⟩, hsize⟩
  · exact nofun
  obtain rfl : x₁ = x := hx₁
  have hcode := area_inRam hareas₁ hconfig₁ (List.mem_singleton_self code)
  have hstub : loaderStub.length = 12 := rfl
  have hsize : code.size = 12 := hsize code rfl
  have hc : x₁.store.ram.Covers code.address.toNat loaderStub.length :=
    laid.covers_ram.mpr ⟨hcode.1, by omega⟩
  refine wp_seq (wp_outcome (wp_onLink (plays_writeBuffer (by decide) (.inr ?_) (play_write hc)
    ?_)))
  · show code.address.toNat + _ ≤ (BitVec.allOnes 32).toNat
    have hram : ramBase + ramSize < 2 ^ 32 := by decide
    rw [BitVec.toNat_allOnes]
    omega
  -- the ring goes into another one
  refine wp_seq (wp_outcome (wp_onAreas (wp_mono
    ((grants (x := x₁.wrote code.address loaderStub) idle).wp_allocShrinking
      ⟨rfl, hconfig₁, hareas₁⟩ _ _) ?_)))
  rintro ⟨e | buffer, s₃⟩ ⟨x₃, y₃⟩ ⟨hx₃, hconfig₃, hareas₃⟩
  · exact yields_told_of_fails (.last fun _ => .last fun _ => .throw_bind _ _)
  obtain rfl : x₃ = _ := hx₃
  refine wp_seq (wp_seq (plays_note ?_))
  -- the data is streamed, and both areas are given back
  have hareas₃ : Settled (A := cortexM) s₃ [code, buffer] false := hareas₃
  have hmem : buffer ∈ [code, buffer] := List.mem_cons_of_mem _ (List.mem_singleton_self _)
  have hbuffer := area_inRam hareas₃ hconfig₃ hmem
  have hapart := area_apart hareas₃
  have hstaged : ∀ ring, Ring.ofArea? buffer 2 = .ok ring →
      Staged buffer ring code.address (x₁.wrote code.address loaderStub) := fun ring hring =>
    .of_wrote laid hcode.1 (by omega) hring (by omega) hbuffer.1 hbuffer.2.1 (by omega)
  refine wp_seq (wp_outcome (wp_mono (yields_stream_any idle hbusy hstaged) ?_))
  rintro ⟨_, dev₄⟩ ⟨x₄, y₄⟩ ⟨hdev, ⟨stats, rfl, hbytes, hx₄, hhalted⟩ | ⟨e, rfl⟩⟩
  · obtain rfl : dev₄.areas = s₃ := hdev
    have hflash : (x₁.wrote code.address loaderStub).store.flash = x₁.store.flash :=
      Store.write_flash _ _ _
    rw [hflash] at hx₄
    exact yields_wrapUp hareas₃ hbytes hx₄ (by rw [hhalted]; decide)
  · exact yields_told_of_fails (wrapUp_fails code buffer e)

/-! ## What can be programmed goes through -/

/-- Where new areas put the loader's code. -/
def loaderArea : Area 32 where
  id := ⟨0, 0, 0⟩
  address := BitVec.ofNat 32 ramBase
  size := 12

/-- Where they put the ring: right behind it. -/
def ringArea : Area 32 where
  id := ⟨0, 1, 0⟩
  address := 0x2000000c
  size := 16384

/-- The ring that fills this area. -/
def areaRing : Ring where
  start := 0x2000000c
  size := 16384
  block := 2
  block_pow := stockRing.block_pow
  pointers_fit := by decide
  two_blocks := by decide
  aligned := rfl
  start_pos := by decide
  in_reach := by decide

/-- The larger area makes a ring. -/
theorem ofArea_ringArea : Ring.ofArea? ringArea 2 = .ok areaRing := rfl

/-- Both areas lie in RAM: the loader's ... -/
theorem inRam_loader : InRam loaderArea.address loaderArea.size :=
  ⟨by decide, by decide, by decide⟩

/-- ... and the ring's. -/
theorem inRam_ring : InRam ringArea.address ringArea.size :=
  ⟨by decide, by decide, by decide⟩

/-- The areas with the code in one of them; `saved` lay there before. -/
def oneHeld (saved : List UInt8) : Areas 32 where
  id := 0
  config := Demo.config
  slots := #[{ block := ⟨0x20000000, 12, false, some saved⟩ },
    { block := ⟨0x2000000c, 20468, true, none⟩ }]
  order := [0, 1]

/-- The areas with the ring in another one. -/
def bothHeld (saved saved' : List UInt8) : Areas 32 where
  id := 0
  config := Demo.config
  slots := #[{ block := ⟨0x20000000, 12, false, some saved⟩ },
    { block := ⟨0x2000000c, 16384, false, some saved'⟩ },
    { block := ⟨0x2000400c, 4084, true, none⟩ }]
  order := [0, 1, 2]

/-- The areas after the ring was given back. -/
def oneLeft (saved : List UInt8) : Areas 32 where
  id := 0
  config := Demo.config
  slots := #[{ block := ⟨0x20000000, 12, false, some saved⟩ },
    { generation := 1, block := ⟨0x2000000c, 20468, true, none⟩ },
    { generation := 1, live := false, block := ⟨0x2000400c, 4084, true, none⟩ }]
  order := [0, 1]
  vacant := [2]

/-- With the loader in place there is room for the ring behind it. -/
theorem firstFit_oneHeld (saved : List UInt8) :
    (oneHeld saved).firstFit? 16384 = some 1 := by
  simp [oneHeld, Areas.block, Areas.firstFit?]

/-- It is cut from there. -/
theorem cut_oneHeld (saved : List UInt8) :
    ((oneHeld saved).split 1 16384).block 1 = ⟨0x2000000c, 16384, true, none⟩ := by
  simp [oneHeld, Areas.split, Areas.block, Areas.modifyBlock, Areas.insert, insertAfter]

/-- Then both are in use. -/
theorem served_oneHeld (saved saved' : List UInt8) :
    served (oneHeld saved) 1 16384 saved' = bothHeld saved saved' := by
  simp [served, oneHeld, bothHeld, Areas.split, Areas.block, Areas.modifyBlock, Areas.insert,
    insertAfter, handOut, offset]

/-- Without the ring, only the loader's is. -/
theorem release_bothHeld (saved saved' : List UInt8) :
    ((bothHeld saved saved').release 1).merge = oneLeft saved := by
  simp [bothHeld, oneLeft, Areas.release, Areas.merge, Areas.mergeFrom, Areas.block, Areas.absorb,
    Areas.vacate, Areas.modifyBlock]

/-- The first request gets the area at the beginning of the window. -/
theorem yields_alloc_code {Q : Except Error (Area 32) × Areas 32 → Chip × η → Prop}
    (laid : x.store.Laid) (idle : x.control.state ≠ .running)
    (hn : ∀ saved : List UInt8, saved.length = 12 →
      Q (.ok loaderArea, oneHeld saved) (x, y)) :
    Yields h ((alloc (A := cortexM) loaderStub.length).run.run
      (Device.fresh (A := cortexM) 0 Demo.config).areas) Q (x, y) := by
  rw [alloc]
  refine wp_seq (wp_outcome ?_)
  rw [allocTry_eq]
  -- the window is closed, and opens at the start of RAM
  refine wp_get (wp_seq (wp_seq (wp_lift (wp_played (wp_get (wp_seq (plays_note ?_)))))))
  exact yields_serve (i := 0) (b := ⟨0x20000000, 12, true, none⟩) laid idle rfl rfl rfl
    inRam_loader hn

/-- The second gets the size that it prefers. -/
theorem yields_alloc_ring {saved : List UInt8}
    {Q : Except Error (Area 32) × Areas 32 → Chip × η → Prop}
    (laid : x.store.Laid) (idle : x.control.state ≠ .running)
    (hn : ∀ saved' : List UInt8, saved'.length = 16384 →
      Q (.ok ringArea, bothHeld saved saved') (x, y)) :
    Yields h ((allocShrinking (A := cortexM) (16 * 1024) 256).run.run (oneHeld saved)) Q
      (x, y) := by
  rw [allocShrinking, allocHalving]
  refine wp_seq (wp_outcome ?_)
  rw [allocTry_eq, show roundUp? (max (16 * 1024) (max 256 1)) = some 16384 from rfl]
  refine wp_get (yields_serve (i := 1) laid idle (firstFit_oneHeld saved) rfl
    (cut_oneHeld saved) inRam_ring fun saved' hsaved' => ?_)
  rw [served_oneHeld]
  exact hn saved' hsaved'

section Takes

variable {t : Nat} {dest : Word} {data : List UInt8} {y : ManualHost}

/-- Where flash is blank, the stream goes through. -/
theorem yields_stream_blank {dev : Device cortexM} (hbusy : dev.busy = false)
    (hx : Staged ringArea areaRing loaderArea.address x)
    (halted : x.control.state = .halted) (unbroken : x.control.breakpoints = [])
    (short : data.length < 2 ^ 33) (hblank : x.store.blank dest (data.length / 2) = data.length / 2)
    (hy : Quiet t y) (time : t + bursts (areaRing.capacity - 2) < 2 ^ 64) :
    Yields ManualHost.host ((stream loaderArea ringArea dest data).run.run dev)
      (fun res v => res.2.areas = dev.areas ∧ (∃ stats, res.1 = .ok (stats, 0)) ∧
        v.1.store.Laid) (x, y) := by
  have hroom : (hx.job dest data).room = (hx.job dest data).total := by
    rw [hx.room_eq dest short, hblank, Job.total_eq _ short]
    rfl
  have hwrite := hx.yields_write_quiet halted unbroken dest short hy time (Demo.patience - 1)
    (by decide)
  have heven : loaderArea.address.toNat % 2 = 0 := by decide
  have hstream : Yields ManualHost.host ((stream loaderArea ringArea dest data).run.run dev)
      (Streamed (hx.job dest data) True dev) (x, y) :=
    yields_stream ofArea_ringArea rfl hbusy (fun _ => Job.accepted _ heven) hwrite
  refine wp_mono hstream ?_
  rintro res v ⟨hareas, ⟨stats, hres, -, hv⟩ | ⟨-, hlack⟩⟩
  · exact ⟨hareas, ⟨stats, hres⟩, hv.laid⟩
  · exact absurd (hlack trivial) (by rw [hroom]; exact Nat.lt_irrefl _)

/-- So does all of it. -/
theorem yields_flashWrite_blank (laid : x.store.Laid) (halted : x.control.state = .halted)
    (unbroken : x.control.breakpoints = []) (short : data.length < 2 ^ 33)
    (hblank : x.store.blank dest (data.length / 2) = data.length / 2) (hy : Quiet t y)
    (time : t + bursts (areaRing.capacity - 2) < 2 ^ 64) :
    Yields ManualHost.host ((flashWrite dest data).run.run (Device.fresh 0 Demo.config))
      (fun res _ => ∃ stats, res.1 = .ok stats) (x, y) := by
  have hidle : x.control.state ≠ .running := by
    rw [halted]
    decide
  have hc : x.store.ram.Covers loaderArea.address.toNat loaderStub.length :=
    laid.covers_ram.mpr ⟨inRam_loader.low, inRam_loader.high⟩
  have hstaged : Staged ringArea areaRing loaderArea.address
      (x.wrote loaderArea.address loaderStub) :=
    .of_wrote laid inRam_loader.low inRam_loader.high ofArea_ringArea rfl
      inRam_ring.low inRam_ring.high (.inl (Nat.le_of_eq rfl))
  rw [flashWrite]
  -- the code, and the ring
  refine wp_seq (wp_onAreas (yields_alloc_code laid hidle fun saved hsaved => ?_))
  refine wp_seq (wp_outcome (wp_onLink (plays_writeBuffer (by decide) inRam_loader.fits
    (play_write hc) ?_)))
  refine wp_seq (wp_outcome (wp_onAreas (yields_alloc_ring hstaged.laid hidle
    fun saved' hsaved' => ?_)))
  refine wp_seq (wp_seq (plays_note ?_))
  -- the data
  refine wp_seq (wp_outcome (wp_mono (yields_stream_blank rfl hstaged halted unbroken short
    ((Store.blank_congr (Store.write_flash _ _ _) dest _).trans hblank) hy time) ?_))
  rintro ⟨_, dev⟩ ⟨x, y⟩ ⟨hareas, ⟨stats, rfl⟩, hlaid⟩
  obtain hareas : dev.areas = bothHeld saved saved' := hareas
  -- both areas are given back
  refine wp_seq (wp_onAreas ?_)
  rw [hareas]
  refine yields_free (i := 1) hlaid rfl rfl rfl inRam_ring rfl hsaved' ?_
  rw [release_bothHeld]
  refine wp_seq (wp_onAreas ?_)
  exact yields_free (i := 0) (hlaid.write _ _) rfl rfl rfl inRam_loader rfl hsaved ⟨stats, rfl⟩

/-- The other way round: what flash allows for is programmed, and that is a success. -/
theorem flashWrite_takes (dest : Word) (data : List UInt8) (y : ManualHost)
    (notes : Array Note) (laid : x.store.Laid) (halted : x.control.state = .halted)
    (unbroken : x.control.breakpoints = []) (short : data.length < 2 ^ 33)
    (blank : x.store.blank dest (data.length / 2) = data.length / 2)
    (undisturbed : y.shutdownAfter = none)
    (time : y.now.toNat + bursts (areaRing.capacity - 2) < 2 ^ 64) :
    ∃ stats dev' x' y' notes',
      ((flashWrite dest data).run.run (Device.fresh 0 Demo.config)).run Chip.target
        ManualHost.host ⟨x, y, notes⟩ = ((.ok stats, dev'), ⟨x', y', notes'⟩) := by
  have hrun := run_of_wp (yields_flashWrite_blank laid halted unbroken short blank
    ⟨rfl, undisturbed⟩ time) notes
  generalize ((flashWrite dest data).run.run _).run Chip.target _ _ = res at hrun ⊢
  obtain ⟨⟨outcome, dev'⟩, x', y', notes'⟩ := res
  obtain ⟨stats, rfl⟩ := hrun
  exact ⟨stats, dev', x', y', notes', rfl⟩

end Takes

/-! ## What a success means -/

/-- A run that comes to a success. -/
theorem flashed_of_done {dev dev' : Device cortexM} {dest : Word} {data : List UInt8}
    {stats : Stats} {x' : Chip} {y' : η} {notes notes' : Array Note} (laid : x.store.Laid)
    (idle : x.control.state ≠ .running) (hconfig : dev.areas.config = Demo.config)
    (hareas : Settled (A := cortexM) dev.areas [] false) (hbusy : dev.busy = false)
    (done : ((flashWrite dest data).run.run dev).run Chip.target h ⟨x, y, notes⟩ =
      ((.ok stats, dev'), ⟨x', y', notes'⟩)) :
    stats.bytes = data.length ∧ Flashed x.store.flash dest data x' := by
  have hyields : Yields h _ (Told x.store.flash dest data) (x, y) :=
    yields_flashWrite laid idle hconfig hareas hbusy
  have htold := run_of_wp hyields notes
  rw [done] at htold
  exact htold stats rfl

/-- Nothing is handed out, so the memory management unit is as it has been all along: off. -/
theorem settled_of_reachable {s : Areas 32} {mmu : Bool}
    (hs : Areas.Reachable cortexM s [] mmu) (hconfig : s.config = Demo.config) :
    Settled (A := cortexM) s [] false := by
  rcases hs.settled with hclosed | ⟨base, hw, hopen⟩
  · exact .inl hclosed
  · cases mmu with
    | false => exact .inr ⟨base, hw, hopen⟩
    | true =>
        rw [hconfig] at hw
        cases hw

/-- SUCCESS MEANS THE DATA IS IN FLASH, up to its last whole halfword. -/
theorem flashWrite_programs {mmu : Bool} {dev dev' : Device cortexM} {dest : Word}
    {data : List UInt8} {stats : Stats} {x' : Chip} {y' : η} {notes notes' : Array Note}
    (reached : Areas.Reachable cortexM dev.areas [] mmu)
    (config : dev.areas.config = Demo.config) (unguarded : dev.busy = false)
    (laid : x.store.Laid) (idle : x.control.state ≠ .running)
    (done : ((flashWrite dest data).run.run dev).run Chip.target h ⟨x, y, notes⟩ =
      ((.ok stats, dev'), ⟨x', y', notes'⟩)) :
    stats.bytes = data.length ∧
      x'.store.flash = x.store.flash.store dest.toNat (data.take (2 * (data.length / 2))) ∧
      (2 ≤ data.length → x'.peek? dest.toNat (2 * (data.length / 2)) =
        some (data.take (2 * (data.length / 2)))) := by
  obtain ⟨hbytes, hx'⟩ :=
    flashed_of_done laid idle config (settled_of_reachable reached config) unguarded done
  exact ⟨hbytes, hx'.flash, hx'.peek⟩

/-- The demo begins with areas that nobody has asked for yet. -/
theorem fresh_reachable :
    Areas.Reachable cortexM (Device.fresh (A := cortexM) 0 Demo.config).areas [] false :=
  Areas.Reachable.new (A := cortexM) 0 Demo.config false

/-- Of three bytes the first two are programmed. -/
theorem flashWrite_programs_three : ∃ stats dev' x' y' notes',
    ((flashWrite (BitVec.ofNat 32 flashBase) [1, 2, 3]).run.run (Device.fresh 0 Demo.config)).run
      Chip.target ManualHost.host ⟨fresh, {}, #[]⟩ = ((.ok stats, dev'), ⟨x', y', notes'⟩) ∧
    stats.bytes = 3 ∧ x'.peek? flashBase 2 = some [1, 2] := by
  obtain ⟨stats, dev', x', y', notes', hrun⟩ := flashWrite_takes (BitVec.ofNat 32 flashBase)
    [1, 2, 3] {} #[] fresh_laid rfl rfl (by decide)
    (Store.blank_filled rfl (by decide) (by decide)) rfl (by decide)
  obtain ⟨hbytes, -, hpeek⟩ := flashWrite_programs fresh_reachable rfl rfl fresh_laid
    (by decide) hrun
  exact ⟨stats, dev', x', y', notes', hrun, hbytes, hpeek (by decide)⟩

/-- The last byte cannot be promised: a single zero for erased flash. -/
theorem not_flashWrite_programs_odd :
    ¬ ∀ (mmu : Bool) (dev dev' : Device cortexM) (dest : Word) (data : List UInt8) (stats : Stats)
        (x x' : Chip) (y y' : ManualHost) (notes notes' : Array Note),
      Areas.Reachable cortexM dev.areas [] mmu → dev.areas.config = Demo.config →
      dev.busy = false → x.store.Laid → x.control.state ≠ .running →
      ((flashWrite dest data).run.run dev).run Chip.target ManualHost.host ⟨x, y, notes⟩ =
        ((.ok stats, dev'), ⟨x', y', notes'⟩) →
      stats.bytes = data.length ∧ x'.peek? dest.toNat data.length = some data := by
  intro hall
  obtain ⟨stats, dev', x', y', notes', hrun⟩ := flashWrite_takes (BitVec.ofNat 32 flashBase)
    [0] {} #[] fresh_laid rfl rfl (by decide) rfl rfl
    (by decide)
  obtain ⟨-, hpeek⟩ := hall false _ dev' _ _ stats fresh x' _ y' _ notes' fresh_reachable rfl
    rfl fresh_laid (by decide) hrun
  -- the loader was told that there is nothing to do
  obtain ⟨-, hx'⟩ := flashed_of_done fresh_laid (by decide) rfl
    (settled_of_reachable fresh_reachable rfl) rfl hrun
  have hlast := hx'.last (by decide)
  have hc : (Region.filled flashBase flashSize 0xff).Covers flashBase 1 :=
    Region.covers_filled.mpr (by decide)
  obtain ⟨bytes, hload, hval⟩ := Region.load?_filled hc
  have hsame : x'.store.flash.load? flashBase 1 = some bytes := hlast.trans hload
  have herased : x'.peek? flashBase 1 = some (List.replicate 1 0xff) := by
    rw [peek?, Store.load?_flash hx'.laid (Region.covers_of_load? hsame), hsame]
    exact congrArg some hval
  exact absurd (hpeek.symm.trans herased) (by decide)

end Chip

end DebugLink
