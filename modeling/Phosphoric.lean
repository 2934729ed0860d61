import Phosphoric.Fdc.Busy
import Phosphoric.Microdisc.Dirty
import Phosphoric.Fdc.Protect
import Phosphoric.Emu.Resume
import Phosphoric.Sedoric.RoundTrip
import Phosphoric.Cards.Restart
import Phosphoric.Cards.Config
import Phosphoric.Tap.Capture
import Phosphoric.Acia.Pins
import Phosphoric.Loci.Media
import Phosphoric.Loci.Paths
import Phosphoric.Loci.Header
import Phosphoric.Loci.Windows
import Phosphoric.Loci.Bits
import Phosphoric.Control.Queue
import Phosphoric.Debugger.Undo
import Phosphoric.Serial.Certificates
import Phosphoric.Sdimg.Termination
import Phosphoric.Sdimg.Created
import Phosphoric.Emu.Restore
import Phosphoric.Fdc.ReadAddress
import Phosphoric.Gdb.Effects
import Phosphoric.Jasmin.Restore
import Phosphoric.Microdisc.Irq
import Phosphoric.UlaNg.Lock
import Phosphoric.Fdc.Service
import Phosphoric.Via.Timer1
import Phosphoric.Audio.Envelope
import Phosphoric.Audio.Output
import Phosphoric.Audio.Sp0256
import Phosphoric.Tap.Boundary
import Phosphoric.Smf.Merge
import Phosphoric.Tap.Cut
import Phosphoric.Cpu.Pulse
import Phosphoric.Cpu.Return
import Phosphoric.Cpu.Trace
import Phosphoric.Movie.Replay
import Phosphoric.Tap.Csave
import Phosphoric.Sdimg.Reads
import Phosphoric.Sdimg.Owned
import Phosphoric.UlaNg.Copper
import Phosphoric.UlaNg.Sprites
import Phosphoric.Emu.Omitted
import Phosphoric.Cast.Message
import Phosphoric.Cast.Heartbeat
import Phosphoric.Serial.Digitelec
import Phosphoric.Video.AviRecorder
import Phosphoric.Control.HttpExact
import Phosphoric.Serial.Dtl2000
import Phosphoric.Serial.PicowifiEscape
import Phosphoric.Tools.Dsk2hfe
import Phosphoric.Serial.TelnetWrites
import Phosphoric.Serial.DiskRead
