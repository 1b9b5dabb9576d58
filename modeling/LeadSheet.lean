import LeadSheet.Arrangement
import LeadSheet.Drill
import LeadSheet.Markup.SingleNote
import LeadSheet.Number.Written
import LeadSheet.Packed.Reader
import LeadSheet.Packed.Share
import LeadSheet.Packed.TokenData
import LeadSheet.Proofs.Arrangement
import LeadSheet.Proofs.Arrangement.Accidental
import LeadSheet.Proofs.Arrangement.Blocks
import LeadSheet.Proofs.Arrangement.Closeness
import LeadSheet.Proofs.Arrangement.Downbeat
import LeadSheet.Proofs.Arrangement.Naming
import LeadSheet.Proofs.Arrangement.Numbered
import LeadSheet.Proofs.Arrangement.Order
import LeadSheet.Proofs.Arrangement.Routing
import LeadSheet.Proofs.Arrangement.Selection
import LeadSheet.Proofs.Accompaniment.Cutting
import LeadSheet.Proofs.Accompaniment.Highest
import LeadSheet.Proofs.Accompaniment.Tiling
import LeadSheet.Proofs.Drill
import LeadSheet.Proofs.Harmony.LooseRange
import LeadSheet.Proofs.Harmony.Places
import LeadSheet.Proofs.Harmony.SharedNotes
import LeadSheet.Proofs.Markup.Joining
import LeadSheet.Proofs.Packed.Damage
import LeadSheet.Proofs.Packed.Greedy
import LeadSheet.Proofs.Packed.Length
import LeadSheet.Proofs.Packed.Reader
import LeadSheet.Proofs.Pitch.Interval
import LeadSheet.Proofs.Session.Accompaniment
import LeadSheet.Proofs.Session.Composition
import LeadSheet.Proofs.Session.Inquiry
import LeadSheet.Proofs.Song.Layout
import LeadSheet.Proofs.Song.Staff
import LeadSheet.Proofs.Timeline.Block
import LeadSheet.Proofs.Timeline.Ladder
import LeadSheet.Proofs.Timeline.Meter
import LeadSheet.Proofs.Timeline.SingleNote
import LeadSheet.Proofs.Timeline.Voices
import LeadSheet.Session.Accompaniment
import LeadSheet.Session.Record
import LeadSheet.Session.Transposition
import LeadSheet.Text.Encoding
import LeadSheet.Text.Hexadecimal
