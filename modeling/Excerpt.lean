import Excerpt.Folder
import Excerpt.Main
import Excerpt.Proofs.Pass
import Excerpt.Proofs.Correction
import Excerpt.Proofs.Naming
import Excerpt.Proofs.Streaming
import Excerpt.Proofs.Laziness
import Excerpt.Proofs.Grammar
import Excerpt.Proofs.Meaning
import Excerpt.Proofs.Language
import Excerpt.Proofs.Faults
import Excerpt.Proofs.Provision
import Excerpt.Proofs.RoundTrip
import Excerpt.Proofs.Union
import Excerpt.Proofs.Mirror
import Excerpt.Proofs.Place
import Excerpt.Proofs.Cutting
import Excerpt.Proofs.Decoding
import Excerpt.Proofs.File
import Excerpt.Proofs.Printing
import Excerpt.Proofs.Document
import Excerpt.Proofs.Input
import Excerpt.Proofs.Joining
import Excerpt.Proofs.Layout
import Excerpt.Proofs.Normal
import Excerpt.Proofs.Translation
import Excerpt.Proofs.Arguments
import Excerpt.Proofs.Log
