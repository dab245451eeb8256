import LidarInterface.Foundation.Memory
import LidarInterface.Foundation.Footprint
import LidarInterface.Foundation.Wrap
import LidarInterface.Foundation.Rounding
import LidarInterface.Foundation.Polar
import LidarInterface.Foundation.Groups
import LidarInterface.Foundation.Select
import LidarInterface.Foundation.Loop
import LidarInterface.Foundation.Hex
import LidarInterface.Foundation.Decimal
import LidarInterface.Format
import LidarInterface.Contents
import LidarInterface.Udp
import LidarInterface.Reader2.MSOPParser
import LidarInterface.Reader2.Receive
import LidarInterface.Reader2.Viewer
import LidarInterface.Reader2.Visualizer
import LidarInterface.Reader2.Output
import LidarInterface.Slam.MSOPParser
import LidarInterface.Slam.LiDARReader
import LidarInterface.Slam.Driver
import LidarInterface.Slam.Dump
import LidarInterface.Slam.Lakibeam
import LidarInterface.Slam.Plotter
import LidarInterface.Theorems.Reader2Decode
import LidarInterface.Theorems.Reader2Sweep
import LidarInterface.Theorems.Reader2Rotation
import LidarInterface.Theorems.Narrowing
import LidarInterface.Theorems.SlamDecode
import LidarInterface.Theorems.SlamSweep
import LidarInterface.Theorems.SlamRotation
import LidarInterface.Theorems.ParserAgreement
import LidarInterface.Theorems.ScanDecode
import LidarInterface.Theorems.ScanAgreement
import LidarInterface.Theorems.Mounting
import LidarInterface.Theorems.InvalidBlocks
import LidarInterface.Theorems.Containment
import LidarInterface.Theorems.ScanContents
import LidarInterface.Theorems.HostOrder
import LidarInterface.Theorems.PacketInfo
import LidarInterface.Theorems.Layout
import LidarInterface.Theorems.Framing
import LidarInterface.Theorems.Collection
import LidarInterface.Theorems.Viewer
import LidarInterface.Theorems.Selection
import LidarInterface.Theorems.Closest
import LidarInterface.Theorems.Outliers
import LidarInterface.Theorems.Returns
import LidarInterface.Theorems.Visualizer
import LidarInterface.Theorems.Acceptance
import LidarInterface.Theorems.Progress
import LidarInterface.Theorems.Repetition
import LidarInterface.Theorems.Loss
import LidarInterface.Theorems.Cartesian
import LidarInterface.Theorems.Driver
import LidarInterface.Theorems.Dump
import LidarInterface.Theorems.Lakibeam
import LidarInterface.Theorems.Plotter
